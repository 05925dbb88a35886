import Mathlib.Data.List.Basic
import Mathlib.Data.Option.Basic

/-! Runs of a machine whose step can end it. -/

namespace Bolina.PartialRun

variable {σ α : Type*} {step : σ → α → Option σ} {s s' t : σ} {x : α} {xs ys : List α}

/-- `none` from the step on that ends the machine. -/
def run (step : σ → α → Option σ) : σ → List α → Option σ
  | s,[] => some s
  | s,x::xs => (step s x).bind (fun s => run step s xs)

@[simp] theorem run_nil (s : σ) : run step s []=some s := rfl

theorem run_cons (s : σ) (x : α) (xs : List α) : run step s (x::xs)=(step s x).bind (fun s => run step s xs) := rfl

theorem run_append (s : σ) (xs ys : List α) : run step s (xs++ys)=(run step s xs).bind (fun t => run step t ys) := by
  induction xs generalizing s with
  | nil => rfl
  | cons x xs ih => simp [run_cons,ih,Option.bind_assoc]

theorem cons_some (h : run step s (x::xs)=some s') : ∃a,step s x=some a ∧ run step a xs=some s' :=
  Option.bind_eq_some_iff.mp h

/-- The run as a fold over what may have ended. -/
theorem foldl_eq_run (s : σ) (xs : List α) : xs.foldl (fun o x => o.bind (fun s => step s x)) (some s)=run step s xs := by
  have hnone : ∀xs : List α,xs.foldl (fun (o : Option σ) x => o.bind (fun s => step s x)) none=none := by
    intro xs
    induction xs with
    | nil => rfl
    | cons x xs ih => exact ih
  induction xs generalizing s with
  | nil => rfl
  | cons x xs ih =>
    rw [List.foldl_cons,Option.bind_some,run_cons]
    cases h : step s x with
    | none => simpa using hnone xs
    | some a => simpa using ih a

/-- The invariant rule. -/
theorem invariant {I : σ → Prop} (hstep : ∀s x s',I s → step s x=some s' → I s') (h : run step s xs=some s')
    (hs : I s) : I s' := by
  induction xs generalizing s with
  | nil =>
    cases h
    exact hs
  | cons x xs ih =>
    obtain ⟨a,hx,ha⟩ := cons_some h
    exact ih ha (hstep s x a hs hx)

/-- A machine that never ends where its invariant holds. -/
theorem never_ends {I : σ → Prop} (hstep : ∀s x,I s → ∃s',step s x=some s' ∧ I s') (s : σ) (hs : I s) (xs : List α) :
    ∃s',run step s xs=some s' ∧ I s' := by
  induction xs generalizing s with
  | nil => exact ⟨s,rfl,hs⟩
  | cons x xs ih =>
    obtain ⟨a,hx,ha⟩ := hstep s x hs
    obtain ⟨s',hrun,hs'⟩ := ih a ha
    exact ⟨s',by rw [run_cons,hx]; exact hrun,hs'⟩

/-- What the steps relate is related by the run. -/
theorem related {I : σ → Prop} {R : σ → σ → Prop} (hrefl : ∀s,R s s) (htrans : ∀a b c,R a b → R b c → R a c)
    (hI : ∀s x s',I s → step s x=some s' → I s') (hR : ∀s x s',I s → step s x=some s' → R s s')
    (h : run step s xs=some s') (hs : I s) : R s s' := by
  induction xs generalizing s with
  | nil =>
    cases h
    exact hrefl _
  | cons x xs ih =>
    obtain ⟨a,hx,ha⟩ := cons_some h
    exact htrans _ _ _ (hR s x a hs hx) (ih ha (hI s x a hs hx))

/-- The step `x` was taken from `a` to `b` in the run, with `post` behind it. -/
structure Took (step : σ → α → Option σ) (s : σ) (xs : List α) (a : σ) (x : α) (b : σ) (post : List α) : Prop where
  split : ∃pre,xs=pre++x::post ∧ run step s pre=some a
  taken : step a x=some b

theorem Took.cons {a b : σ} {y : α} {post : List α} (h : Took step t xs a x b post) (hy : step s y=some t) :
    Took step s (y::xs) a x b post := by
  obtain ⟨⟨pre,hxs,hpre⟩,htaken⟩ := h
  refine ⟨⟨y::pre,by rw [hxs,List.cons_append],?_⟩,htaken⟩
  rw [run_cons,hy]
  exact hpre

/-- What holds at the end of a run and not at its start has come with a step. -/
theorem came {P : σ → Prop} (h : run step s xs=some s') (hs : ¬P s) (hs' : P s') :
    ∃a x b post,Took step s xs a x b post ∧ run step b post=some s' ∧ ¬P a ∧ P b := by
  induction xs generalizing s with
  | nil =>
    cases h
    exact absurd hs' hs
  | cons y xs ih =>
    obtain ⟨t,hy,hrun⟩ := cons_some h
    by_cases ht : P t
    · exact ⟨s,y,t,xs,⟨⟨[],rfl,rfl⟩,hy⟩,hrun,hs,ht⟩
    · obtain ⟨a,x,b,post,htook,hpost,ha,hb⟩ := ih hrun ht
      exact ⟨a,x,b,post,htook.cons hy,hpost,ha,hb⟩

section Explanations

variable {β τ : Type*} {W : σ → α → β → σ → Prop} {ws : List (α × β)}

/-- A run with what explains each of its steps. -/
inductive Explained (step : σ → α → Option σ) (W : σ → α → β → σ → Prop) : σ → List (α × β) → σ → Prop
  | start (s : σ) : Explained step W s [] s
  | next {s t s' : σ} {x : α} {b : β} {ws : List (α × β)} (taken : step s x=some t) (why : W s x b t)
      (rest : Explained step W t ws s') : Explained step W s ((x,b)::ws) s'

/-- Where every step has an explanation, every run has one. -/
theorem explained {I : σ → Prop} (hI : ∀s x s',I s → step s x=some s' → I s')
    (hW : ∀s x s',I s → step s x=some s' → ∃b,W s x b s') (h : run step s xs=some s') (hs : I s) :
    ∃ws : List (α × β),ws.map Prod.fst=xs ∧ Explained step W s ws s' := by
  induction xs generalizing s with
  | nil =>
    cases h
    exact ⟨[],rfl,.start _⟩
  | cons x xs ih =>
    obtain ⟨a,hx,ha⟩ := cons_some h
    obtain ⟨b,hb⟩ := hW s x a hs hx
    obtain ⟨ws,hws,hrest⟩ := ih ha (hI s x a hs hx)
    exact ⟨(x,b)::ws,by rw [List.map_cons,hws],.next hx hb hrest⟩

/-- What an explanation makes of a view of the state, the explanations make of it in the run. -/
theorem Explained.fold {view : σ → τ} {apply : τ → β → τ} (hview : ∀s x b s',W s x b s' → view s'=apply (view s) b)
    (h : Explained step W s ws s') : view s'=(ws.map Prod.snd).foldl apply (view s) := by
  induction h with
  | start s => rfl
  | next taken why rest ih => rw [ih,hview _ _ _ _ why,List.map_cons,List.foldl_cons]

end Explanations

section Folds

variable {β γ τ : Type*} {apply : τ → β → τ}

/-- What some of the inputs bring and others take away is there when nothing has taken it away
since it was last brought. -/
theorem foldl_holds_iff {holds : τ → Prop} {adds takes : β → Prop}
    (hstep : ∀a b,holds (apply a b) ↔ adds b ∨ holds a ∧ ¬takes b) (bs : List β) (a : τ) :
    holds (bs.foldl apply a) ↔
      (∃pre b post,bs=pre++b::post ∧ adds b ∧ ∀c∈post,¬takes c) ∨ holds a ∧ ∀b∈bs,¬takes b := by
  induction bs generalizing a with
  | nil => simp
  | cons b bs ih =>
    rw [List.foldl_cons,ih,hstep]
    constructor
    · rintro (⟨pre,c,post,rfl,hadds,hpost⟩|⟨hadds|⟨ha,hb⟩,hbs⟩)
      · exact .inl ⟨b::pre,c,post,rfl,hadds,hpost⟩
      · exact .inl ⟨[],b,bs,rfl,hadds,hbs⟩
      · exact .inr ⟨ha,List.forall_mem_cons.mpr ⟨hb,hbs⟩⟩
    · rintro (⟨pre,c,post,hsplit,hadds,hpost⟩|⟨ha,hbs⟩)
      · cases pre with
        | nil =>
          cases hsplit
          exact .inr ⟨.inl hadds,hpost⟩
        | cons b' pre =>
          cases hsplit
          exact .inl ⟨pre,c,post,rfl,hadds,hpost⟩
      · obtain ⟨hb,hbs⟩ := List.forall_mem_cons.mp hbs
        exact .inr ⟨.inr ⟨ha,hb⟩,hbs⟩

/-- A list that some of the inputs are added to. -/
theorem foldl_collects {list : τ → List γ} {f : β → Option γ} (hstep : ∀a b,list (apply a b)=list a++(f b).toList)
    (bs : List β) (a : τ) : list (bs.foldl apply a)=list a++bs.filterMap f := by
  induction bs generalizing a with
  | nil => simp
  | cons b bs ih =>
    rw [List.foldl_cons,ih,hstep,List.append_assoc]
    cases h : f b <;> simp [h]

/-- A counter that some of the inputs move. -/
theorem foldl_counts {count : τ → Nat} {p : β → Bool} (hstep : ∀a b,count (apply a b)=count a+(p b).toNat)
    (bs : List β) (a : τ) : count (bs.foldl apply a)=count a+bs.countP p := by
  induction bs generalizing a with
  | nil => rfl
  | cons b bs ih =>
    rw [List.foldl_cons,ih,hstep,List.countP_cons]
    cases p b
    · simp
    · rw [Bool.toNat_true,if_pos rfl]
      omega

/-- What none of the inputs touches. -/
theorem foldl_keeps {view : τ → γ} (hstep : ∀a b,view (apply a b)=view a) (bs : List β) (a : τ) :
    view (bs.foldl apply a)=view a := by
  induction bs generalizing a with
  | nil => rfl
  | cons b bs ih => rw [List.foldl_cons,ih,hstep]

end Folds

end Bolina.PartialRun
