import Mathlib.Logic.Basic

namespace Bolina.GuardedRun

variable {σ α : Type*}

/-- Every step of the run meets the guard in the state it starts from. -/
def Meets (step : σ → α → σ) (guard : σ → α → Prop) : σ → List α → Prop
  | _,[] => True
  | s,x::xs => guard s x ∧ Meets step guard (step s x) xs

/-- `P` holds in every state of the run, the first one included. -/
def Always (step : σ → α → σ) (P : σ → Prop) : σ → List α → Prop
  | s,[] => P s
  | s,x::xs => P s ∧ Always step P (step s x) xs

/-- How many steps of the run fire. -/
def count (step : σ → α → σ) (fires : σ → α → Bool) : σ → List α → Nat
  | _,[] => 0
  | s,x::xs => (fires s x).toNat+count step fires (step s x) xs

/-- A guard that can be decided can be checked along a run. -/
instance decidableMeets (step : σ → α → σ) (guard : σ → α → Prop) [∀s x,Decidable (guard s x)] :
    (s : σ) → (xs : List α) → Decidable (Meets step guard s xs)
  | _,[] => .isTrue trivial
  | s,x::xs =>
    have := decidableMeets step guard (step s x) xs
    inferInstanceAs (Decidable (guard s x ∧ Meets step guard (step s x) xs))

section Run

variable {step : σ → α → σ} {guard : σ → α → Prop} {P : σ → Prop}

theorem meets_append (s : σ) (xs ys : List α) :
    Meets step guard s (xs++ys) ↔
      Meets step guard s xs ∧ Meets step guard (xs.foldl step s) ys := by
  induction xs generalizing s with
  | nil => simp [Meets]
  | cons x xs ih => simp [Meets,ih,and_assoc]

theorem meets_of_invariant (hstep : ∀s x,P s → P (step s x)) (hg : ∀s x,P s → guard s x)
    (s : σ) (xs : List α) (hs : P s) : Meets step guard s xs := by
  induction xs generalizing s with
  | nil => trivial
  | cons x xs ih => exact ⟨hg s x hs,ih _ (hstep s x hs)⟩

theorem meets_mono {weak : σ → α → Prop} (hw : ∀s x,guard s x → weak s x)
    (s : σ) (xs : List α) (h : Meets step guard s xs) : Meets step weak s xs := by
  induction xs generalizing s with
  | nil => trivial
  | cons x xs ih => exact ⟨hw s x h.1,ih _ h.2⟩

theorem meets_and {other : σ → α → Prop} (s : σ) (xs : List α) (h : Meets step guard s xs)
    (ho : Meets step other s xs) : Meets step (fun s x => guard s x ∧ other s x) s xs := by
  induction xs generalizing s with
  | nil => trivial
  | cons x xs ih => exact ⟨⟨h.1,ho.1⟩,ih _ h.2 ho.2⟩

/-- The induction rule of guarded runs: what every guarded step preserves,
the whole run preserves. -/
theorem invariant (hstep : ∀s x,guard s x → P s → P (step s x))
    (s : σ) (xs : List α) (h : Meets step guard s xs) (hs : P s) : P (xs.foldl step s) := by
  induction xs generalizing s with
  | nil => exact hs
  | cons x xs ih => exact ih _ h.2 (hstep s x h.1 hs)

/-- What every guarded step preserves holds in every state of a guarded run. -/
theorem always_of_meets (hstep : ∀s x,guard s x → P s → P (step s x)) (s : σ) (xs : List α)
    (h : Meets step guard s xs) (hs : P s) : Always step P s xs := by
  induction xs generalizing s with
  | nil => exact hs
  | cons x xs ih => exact ⟨hs,ih _ h.2 (hstep s x h.1 hs)⟩

theorem always_foldl (s : σ) (xs : List α) (h : Always step P s xs) : P (xs.foldl step s) := by
  induction xs generalizing s with
  | nil => exact h
  | cons x xs ih => exact ih _ h.2

theorem always_append (s : σ) (xs ys : List α) :
    Always step P s (xs++ys) ↔ Always step P s xs ∧ Always step P (xs.foldl step s) ys := by
  induction xs generalizing s with
  | nil =>
    constructor
    · intro h
      cases ys with
      | nil => exact ⟨h,h⟩
      | cons y ys => exact ⟨h.1,h⟩
    · exact fun h => h.2
  | cons x xs ih => simp only [List.cons_append,Always,ih,List.foldl_cons,and_assoc]

theorem always_mono {Q : σ → Prop} (hpq : ∀s,P s → Q s) (s : σ) (xs : List α) (h : Always step P s xs) :
    Always step Q s xs := by
  induction xs generalizing s with
  | nil => exact hpq s h
  | cons x xs ih => exact ⟨hpq s h.1,ih _ h.2⟩

/-- What every input of a kind keeps holds along the runs of that kind. -/
theorem always_of_step {kind : α → Prop} (hstep : ∀s x,kind x → P s → P (step s x)) (s : σ) (xs : List α)
    (hxs : ∀x∈xs,kind x) (hs : P s) : Always step P s xs := by
  induction xs generalizing s with
  | nil => exact hs
  | cons x xs ih =>
    exact ⟨hs,ih _ (fun y hy => hxs y (List.mem_cons_of_mem _ hy)) (hstep s x (hxs x List.mem_cons_self) hs)⟩

/-- What holds always holds wherever the run is cut. -/
theorem always_take (s : σ) (xs : List α) (h : Always step P s xs) (k : Nat) : P ((xs.take k).foldl step s) := by
  have hcut := (always_append s (xs.take k) (xs.drop k)).mp (by rwa [List.take_append_drop])
  exact always_foldl s _ hcut.1

variable {I : σ → Prop}

/-- Two guards that agree wherever the invariant holds are met by the same runs. -/
theorem meets_congr {other : σ → α → Prop} (hI : ∀s x,I s → I (step s x))
    (hg : ∀s x,I s → (guard s x ↔ other s x)) (s : σ) (xs : List α) (hs : I s) :
    Meets step guard s xs ↔ Meets step other s xs := by
  induction xs generalizing s with
  | nil => exact Iff.rfl
  | cons x xs ih => exact and_congr (hg s x hs) (ih _ (hI s x hs))

/-- A property that a step keeps exactly when it meets the guard holds along exactly
the runs that meet it. -/
theorem always_iff_meets (hI : ∀s x,I s → I (step s x))
    (hP : ∀s x,I s → P s → (P (step s x) ↔ guard s x)) (s : σ) (xs : List α) (hs : I s) (hp : P s) :
    Always step P s xs ↔ Meets step guard s xs := by
  induction xs generalizing s with
  | nil => exact ⟨fun _ => trivial,fun _ => hp⟩
  | cons x xs ih =>
    have hstep := hP s x hs hp
    constructor
    · intro h
      have hnext : P (step s x) := by
        cases xs with
        | nil => exact h.2
        | cons y ys => exact h.2.1
      exact ⟨hstep.mp hnext,(ih _ (hI s x hs) hnext).mp h.2⟩
    · intro h
      have hnext : P (step s x) := hstep.mpr h.1
      exact ⟨hp,(ih _ (hI s x hs) hnext).mpr h.2⟩

/-- What a step owes, and what it keeps, when both come exactly from the guard. -/
theorem meets_always_iff {owes : σ → α → Prop} (hI : ∀s x,I s → I (step s x))
    (hP : ∀s x,I s → P s → (owes s x ∧ P (step s x) ↔ guard s x)) (s : σ) (xs : List α) (hs : I s) (hp : P s) :
    Meets step owes s xs ∧ Always step P s xs ↔ Meets step guard s xs := by
  induction xs generalizing s with
  | nil => exact ⟨fun _ => trivial,fun _ => ⟨trivial,hp⟩⟩
  | cons x xs ih =>
    have hstep := hP s x hs hp
    constructor
    · intro h
      have hnext : P (step s x) := by
        cases xs with
        | nil => exact h.2.2
        | cons y ys => exact h.2.2.1
      exact ⟨hstep.mp ⟨h.1.1,hnext⟩,(ih _ (hI s x hs) hnext).mp ⟨h.1.2,h.2.2⟩⟩
    · intro h
      obtain ⟨howes,hnext⟩ := hstep.mpr h.1
      obtain ⟨hm,ha⟩ := (ih _ (hI s x hs) hnext).mpr h.2
      exact ⟨⟨howes,hm⟩,hp,ha⟩

end Run

section SpendOnce

variable (step : σ → α → σ) (fires : σ → α → Bool) (guard : σ → α → Prop)

/-- A token spent by the step that fires for it: it stays spent, and nothing
fires for a spent token. -/
structure Spends (spent : σ → Prop) : Prop where
  refuse : ∀s x,guard s x → spent s → fires s x=false
  keep : ∀s x,guard s x → spent s → spent (step s x)
  spend : ∀s x,guard s x → fires s x=true → spent (step s x)

variable {step fires guard} {spent : σ → Prop}

theorem Spends.count_of_spent (h : Spends step fires guard spent) (s : σ) (xs : List α)
    (hm : Meets step guard s xs) (hs : spent s) : count step fires s xs=0 := by
  induction xs generalizing s with
  | nil => rfl
  | cons x xs ih =>
    rw [count,h.refuse s x hm.1 hs,ih _ hm.2 (h.keep s x hm.1 hs)]
    rfl

theorem Spends.count_le_one (h : Spends step fires guard spent) (s : σ) (xs : List α)
    (hm : Meets step guard s xs) : count step fires s xs≤1 := by
  induction xs generalizing s with
  | nil => simp [count]
  | cons x xs ih =>
    rw [count]
    cases hf : fires s x with
    | false => simpa using ih _ hm.2
    | true =>
      have hz := h.count_of_spent (step s x) xs hm.2 (h.spend s x hm.1 hf)
      simp [hz]

end SpendOnce

end Bolina.GuardedRun
