import Bolina.Framework.GuardedRun
import Mathlib.Data.Finset.Insert

namespace Bolina.SlidingWindow

open GuardedRun

/-- An anti-replay window over the natural numbers: everything accepted so far
and the largest of it. `width` is how far below the top a late number may be. -/
@[ext] structure Window where
  top : Nat
  seen : Finset Nat
  bound : ∀c∈seen,c ≤ top
  topSeen : top∈seen

def Window.first (c : Nat) : Window := ⟨c,{c},by simp,by simp⟩

def Window.Fresh (width : Nat) (w : Window) (c : Nat) : Prop :=
  w.top<c ∨ (w.top-c<width ∧ c∉w.seen)

instance (width : Nat) (w : Window) (c : Nat) : Decidable (w.Fresh width c) :=
  inferInstanceAs (Decidable (_ ∨ _))

def Window.accept (w : Window) (c : Nat) : Window where
  top := max w.top c
  seen := insert c w.seen
  bound := by
    intro d hd
    rcases Finset.mem_insert.mp hd with rfl|hd
    · exact Nat.le_max_right _ _
    · exact (w.bound d hd).trans (Nat.le_max_left _ _)
  topSeen := by
    rcases Nat.le_total w.top c with h|h
    · simp [Nat.max_eq_right h]
    · simp [Nat.max_eq_left h,w.topSeen]

def Window.step (width : Nat) (w : Window) (c : Nat) : Window :=
  if w.Fresh width c then w.accept c else w

@[simp] theorem Window.accept_top (w : Window) (c : Nat) : (w.accept c).top=max w.top c := rfl

@[simp] theorem Window.accept_seen (w : Window) (c : Nat) :
    (w.accept c).seen=insert c w.seen := rfl

theorem Window.step_of_fresh {width : Nat} {w : Window} {c : Nat} (h : w.Fresh width c) :
    w.step width c=w.accept c := if_pos h

theorem Window.step_of_not_fresh {width : Nat} {w : Window} {c : Nat} (h : ¬w.Fresh width c) :
    w.step width c=w := if_neg h

theorem Window.not_fresh_of_seen {width : Nat} {w : Window} {c : Nat} (h : c∈w.seen) :
    ¬w.Fresh width c := by
  have hb := w.bound c h
  intro hw
  obtain ht|⟨_,hn⟩ := hw
  · omega
  · exact hn h

theorem Window.seen_step {width : Nat} {w : Window} {c d : Nat} (h : c∈w.seen) :
    c∈(w.step width d).seen := by
  unfold Window.step
  split
  · exact Finset.mem_insert_of_mem h
  · exact h

theorem Window.mem_step_seen {width : Nat} {w : Window} {c d : Nat}
    (h : c∈(w.step width d).seen) : c=d ∨ c∈w.seen := by
  unfold Window.step at h
  split at h
  · exact Finset.mem_insert.mp h
  · exact Or.inr h

theorem Window.top_step_le {width : Nat} {w : Window} {d n : Nat} (hw : w.top<n) (hd : d<n) :
    (w.step width d).top<n := by
  unfold Window.step
  split
  · exact max_lt hw hd
  · exact hw

theorem Window.le_top_step {width : Nat} (w : Window) (d : Nat) : w.top≤(w.step width d).top := by
  unfold Window.step
  split
  · exact Nat.le_max_left _ _
  · exact Nat.le_refl _

/-- What a window knows of the numbers put to it so far: the largest of them, and
those it has taken. -/
structure Window.Recalls (w : Window) (earlier : List Nat) (Taken : Nat → Prop) : Prop where
  topMem : w.top∈earlier
  largest : ∀d∈earlier,d ≤ w.top
  taken : ∀d,d∈w.seen ↔ Taken d

theorem Window.recalls_first (c : Nat) : (Window.first c).Recalls [c] (fun d => d=c) where
  topMem := List.mem_singleton_self c
  largest _ hd := (List.mem_singleton.mp hd).le
  taken _ := Finset.mem_singleton

section Recalls

variable {w : Window} {earlier : List Nat} {Taken : Nat → Prop}

theorem Window.Recalls.step (h : w.Recalls earlier Taken) (width c : Nat) :
    (w.step width c).Recalls (earlier++[c]) (fun d => Taken d ∨ (d=c ∧ w.Fresh width c)) := by
  by_cases hf : w.Fresh width c
  · rw [Window.step_of_fresh hf]
    refine ⟨?_,?_,?_⟩
    · rw [Window.accept_top,List.mem_append,List.mem_singleton]
      rcases Nat.le_total w.top c with hle | hle
      · exact .inr (Nat.max_eq_right hle)
      · rw [Nat.max_eq_left hle]
        exact .inl h.topMem
    · intro d hd
      rw [Window.accept_top]
      rcases List.mem_append.mp hd with hd | hd
      · exact (h.largest d hd).trans (Nat.le_max_left _ _)
      · rw [List.mem_singleton.mp hd]
        exact Nat.le_max_right _ _
    · intro d
      rw [Window.accept_seen,Finset.mem_insert,h.taken d,or_comm]
      simp only [hf,and_true]
  · rw [Window.step_of_not_fresh hf]
    refine ⟨List.mem_append_left _ h.topMem,?_,?_⟩
    · intro d hd
      rcases List.mem_append.mp hd with hd | hd
      · exact h.largest d hd
      · rw [List.mem_singleton.mp hd]
        exact Nat.le_of_not_lt (fun hlt => hf (.inl hlt))
    · intro d
      simp only [h.taken d,hf,and_false,or_false]

/-- What a number is measured against: all earlier ones, or the largest and what was taken. -/
theorem Window.Recalls.fresh_iff (h : w.Recalls earlier Taken) (width c : Nat) :
    w.Fresh width c ↔
      (∀d∈earlier,d < c) ∨ ((∃top∈earlier,(∀d∈earlier,d ≤ top) ∧ c ≤ top ∧ top-c < width) ∧ ¬Taken c) := by
  constructor
  · intro hf
    by_cases hlt : w.top < c
    · exact .inl (fun d hd => (h.largest d hd).trans_lt hlt)
    · rcases hf with hf | ⟨hnear,hnew⟩
      · exact absurd hf hlt
      · exact .inr ⟨⟨w.top,h.topMem,h.largest,Nat.le_of_not_lt hlt,hnear⟩,mt (h.taken c).mpr hnew⟩
  · intro hw
    obtain hall | ⟨⟨top,hmem,hlargest,hle,hnear⟩,hnew⟩ := hw
    · exact .inl (hall w.top h.topMem)
    · have htop : top=w.top := Nat.le_antisymm (h.largest top hmem) (hlargest w.top h.topMem)
      rw [htop] at hnear
      exact .inr ⟨hnear,mt (h.taken c).mp hnew⟩

/-- Every number put to the window has been taken, or is out of its reach by now. -/
def Window.Settled (width : Nat) (w : Window) (earlier : List Nat) : Prop :=
  ∀d∈earlier,d∈w.seen ∨ d+width ≤ w.top

theorem Window.settled_first (width c : Nat) : (Window.first c).Settled width [c] := by
  intro d hd
  exact .inl (Finset.mem_singleton.mpr (List.mem_singleton.mp hd))

theorem Window.Settled.step {width : Nat} (h : w.Settled width earlier) (c : Nat) :
    (w.step width c).Settled width (earlier++[c]) := by
  intro d hd
  rcases List.mem_append.mp hd with hd | hd
  · rcases h d hd with hs | hle
    · exact .inl (Window.seen_step hs)
    · exact .inr (hle.trans (w.le_top_step c))
  · rw [List.mem_singleton.mp hd]
    by_cases hf : w.Fresh width c
    · rw [Window.step_of_fresh hf]
      exact .inl (Finset.mem_insert_self _ _)
    · rw [Window.step_of_not_fresh hf]
      by_cases hs : c∈w.seen
      · exact .inl hs
      · have hlate : ¬w.top < c ∧ ¬w.top-c < width := ⟨fun hlt => hf (.inl hlt),fun hn => hf (.inr ⟨hn,hs⟩)⟩
        exact .inr (by omega)

/-- Within its reach the window has not taken exactly what was never put to it. -/
theorem Window.Settled.not_seen_iff {width : Nat} (h : w.Settled width earlier) (hr : w.Recalls earlier Taken)
    (hsub : ∀d,Taken d → d∈earlier) (c : Nat) (hc : w.top-c < width) : c∉w.seen ↔ c∉earlier := by
  constructor
  · intro hs hm
    rcases h c hm with hs' | hle
    · exact hs hs'
    · omega
  · intro hm hs
    exact hm (hsub c ((hr.taken c).mp hs))

end Recalls

/-- The window accepts every number at most once, in any order of arrival. -/
theorem Window.spends (width d : Nat) :
    Spends (Window.step width) (fun w c => d==c && decide (w.Fresh width c)) (fun _ _ => True)
      (fun w => d∈w.seen) where
  refuse w c _ hd := by
    cases hdc : d==c with
    | false => rfl
    | true =>
      have hs : c∈w.seen := by rwa [← beq_iff_eq.mp hdc]
      simp [Window.not_fresh_of_seen hs]
  keep w c _ hd := Window.seen_step hd
  spend w c _ hf := by
    simp only [Bool.and_eq_true,beq_iff_eq,decide_eq_true_eq] at hf
    obtain ⟨rfl,hf⟩ := hf
    rw [Window.step_of_fresh hf]
    exact Finset.mem_insert_self _ _

end Bolina.SlidingWindow
