import Mathlib.Data.List.Basic

namespace Bolina.Lockstep

variable {σ τ α β : Type*}

/-- A run is split at an input that it had before, or at its last one. -/
theorem split_concat (xs before rest : List α) (y x : α) :
    xs++[y]=before++x::rest ↔ (∃rest',rest=rest'++[y] ∧ xs=before++x::rest') ∨ (rest=[] ∧ xs=before ∧ y=x) := by
  constructor
  · intro h
    rcases List.eq_nil_or_concat' rest with rfl | ⟨rest,z,rfl⟩
    · obtain ⟨hxs,hy⟩ := List.append_inj' h rfl
      exact .inr ⟨rfl,hxs,(List.cons.inj hy).1⟩
    · have h' : xs++[y]=(before++x::rest)++[z] := by simpa using h
      obtain ⟨hxs,hy⟩ := List.append_inj' h' rfl
      rw [(List.cons.inj hy).1]
      exact .inl ⟨rest,rfl,hxs⟩
  · intro hw
    obtain ⟨rest,rfl,rfl⟩ | ⟨rfl,rfl,rfl⟩ := hw
    · simp
    · rfl

/-- Every input of the run stands in `P` to the inputs before it. -/
def Throughout (P : List α → α → Prop) (xs : List α) : Prop := ∀before x rest,xs=before++x::rest → P before x

theorem throughout_nil (P : List α → α → Prop) : Throughout P [] := by
  intro before x rest h
  exact absurd h.symm (List.append_ne_nil_of_right_ne_nil before (List.cons_ne_nil x rest))

theorem throughout_concat (P : List α → α → Prop) (xs : List α) (x : α) :
    Throughout P (xs++[x]) ↔ Throughout P xs ∧ P xs x := by
  constructor
  · intro h
    refine ⟨?_,h xs x [] rfl⟩
    intro before y rest he
    exact h before y (rest++[x]) (by simp [he])
  · intro h before y rest he
    obtain ⟨rest,rfl,rfl⟩ | ⟨rfl,rfl,rfl⟩ := (split_concat xs before rest x y).mp he
    · exact h.1 before y rest rfl
    · exact h.2

section Answers

variable (f : σ → α → β × σ)

/-- The state a machine is left in by a run. -/
def after (s : σ) (xs : List α) : σ := xs.foldl (fun s x => (f s x).2) s

/-- What it answers to the input that comes next. -/
def answer (s : σ) (earlier : List α) (x : α) : β := (f (after f s earlier) x).1

def answers (s : σ) : List α → List β
  | [] => []
  | x::xs => (f s x).1::answers (f s x).2 xs

/-- Some earlier `x` of the run has got the answer `b`. -/
def Answered (s : σ) (earlier : List α) (x : α) (b : β) : Prop :=
  ∃before rest,earlier=before++x::rest ∧ answer f s before x=b

variable (s : σ) (xs : List α) (x y : α) (b : β)

@[simp] theorem after_concat : after f s (xs++[x])=(f (after f s xs) x).2 := by
  rw [after,List.foldl_append]
  rfl

theorem answers_concat : answers f s (xs++[x])=answers f s xs++[answer f s xs x] := by
  induction xs generalizing s with
  | nil => rfl
  | cons y ys ih =>
    rw [List.cons_append,answers,ih]
    rfl

/-- The input that comes last has an answer of its own, and every other one has the
answer it had before. -/
theorem answered_concat : Answered f s (xs++[y]) x b ↔ Answered f s xs x b ∨ (x=y ∧ answer f s xs y=b) := by
  constructor
  · intro h
    obtain ⟨before,rest,he,hb⟩ := h
    obtain ⟨rest,rfl,rfl⟩ | ⟨rfl,rfl,rfl⟩ := (split_concat xs before rest y x).mp he
    · exact .inl ⟨before,rest,rfl,hb⟩
    · exact .inr ⟨rfl,hb⟩
  · intro hw
    obtain ⟨before,rest,rfl,hb⟩ | ⟨rfl,hb⟩ := hw
    · exact ⟨before,rest++[y],by simp,hb⟩
    · exact ⟨xs,[],rfl,hb⟩

/-- Two machines answer a longer run alike when they did so before and agree on its last input. -/
theorem answers_concat_eq (g : τ → α → β × τ) (t : τ) :
    answers f s (xs++[x])=answers g t (xs++[x]) ↔
      answers f s xs=answers g t xs ∧ answer f s xs x=answer g t xs x := by
  rw [answers_concat,answers_concat]
  constructor
  · intro h
    obtain ⟨hxs,hx⟩ := List.append_inj' h rfl
    exact ⟨hxs,(List.cons.inj hx).1⟩
  · intro hw
    obtain ⟨hxs,hx⟩ := hw
    rw [hxs,hx]

end Answers

/-- Two machines answer a run alike, up to the step that leaves `kept`. -/
def Alike (f : σ → α → β × σ) (g : τ → α → β × τ) (kept : σ → α → Prop) : σ → τ → List α → Prop
  | _,_,[] => True
  | s,t,x::xs => (f s x).1=(g t x).1 ∧ (kept s x → Alike f g kept (f s x).2 (g t x).2 xs)

/-- The steps of a run meet the guard, up to the one that leaves `kept`. -/
def MeetsWhile (step : σ → α → σ) (kept guard : σ → α → Prop) : σ → List α → Prop
  | _,[] => True
  | s,x::xs => guard s x ∧ (kept s x → MeetsWhile step kept guard (step s x) xs)

/-- Two machines in related states answer a step alike exactly within the guard, and
a step within the guard keeps them related as long as it is kept itself. -/
structure Coupled (f : σ → α → β × σ) (g : τ → α → β × τ) (kept guard : σ → α → Prop)
    (related : σ → τ → Prop) : Prop where
  alike : ∀s t x,related s t → ((f s x).1=(g t x).1 ↔ guard s x)
  keep : ∀s t x,related s t → guard s x → kept s x → related (f s x).2 (g t x).2

/-- Coupled machines answer a run alike exactly when the run stays within the guard. -/
theorem Coupled.alike_iff {f : σ → α → β × σ} {g : τ → α → β × τ} {kept guard : σ → α → Prop}
    {related : σ → τ → Prop} (h : Coupled f g kept guard related) (s : σ) (t : τ) (xs : List α)
    (hr : related s t) :
    Alike f g kept s t xs ↔ MeetsWhile (fun s x => (f s x).2) kept guard s xs := by
  induction xs generalizing s t with
  | nil => exact Iff.rfl
  | cons x xs ih =>
    have hx := h.alike s t x hr
    constructor
    · intro ha
      have hg := hx.mp ha.1
      exact ⟨hg,fun hk => (ih _ _ (h.keep s t x hr hg hk)).mp (ha.2 hk)⟩
    · intro hm
      exact ⟨hx.mpr hm.1,fun hk => (ih _ _ (h.keep s t x hr hm.1 hk)).mpr (hm.2 hk)⟩

end Bolina.Lockstep
