import Bolina.Framework.Lockstep
import Mathlib.Data.Finset.Insert
import Mathlib.Data.Finset.Lattice.Lemmas

/-! A collection of the parts of a whole, in any order and with repetitions. -/

namespace Bolina.Collector

open Lockstep

variable {α : Type*} [DecidableEq α]

inductive Answer where
  | part
  | again
  | whole
  deriving DecidableEq,Repr

/-- The part that was the last missing one empties the collection. -/
def step (whole got : Finset α) (x : α) : Answer × Finset α :=
  if x∈got then (.again,got) else if insert x got=whole then (.whole,∅) else (.part,insert x got)

variable {whole got : Finset α} {x : α}

theorem step_again (h : x∈got) : step whole got x=(.again,got) := if_pos h

theorem step_whole (h : x∉got) (hw : insert x got=whole) : step whole got x=(.whole,∅) := by
  rw [step,if_neg h,if_pos hw]

theorem step_part (h : x∉got) (hw : insert x got≠whole) : step whole got x=(.part,insert x got) := by
  rw [step,if_neg h,if_neg hw]

/-- As long as a part is missing, the parts are kept and nothing is called whole. -/
theorem answers_missing (xs : List α) (hmiss : ∃y∈whole,y∉got ∧ y∉xs) :
    after (step whole) got xs=got∪xs.toFinset ∧ Answer.whole∉answers (step whole) got xs := by
  induction xs generalizing got with
  | nil => simp [after,answers]
  | cons x xs ih =>
    obtain ⟨y,hy,hgot,hxs⟩ := hmiss
    obtain ⟨hyx,hxs⟩ := List.ne_and_not_mem_of_not_mem_cons hxs
    by_cases hx : x∈got
    · obtain ⟨hafter,hno⟩ := ih ⟨y,hy,hgot,hxs⟩
      rw [after,List.foldl_cons,answers,step_again hx]
      refine ⟨?_,by simpa using hno⟩
      rw [List.toFinset_cons,Finset.union_insert,Finset.insert_eq_of_mem (Finset.mem_union_left _ hx)]
      exact hafter
    · have hout : y∉insert x got := by simp [hyx,hgot]
      have hne : insert x got≠whole := fun he => hout (he ▸ hy)
      obtain ⟨hafter,hno⟩ := ih ⟨y,hy,hout,hxs⟩
      rw [after,List.foldl_cons,answers,step_part hx hne]
      refine ⟨?_,by simpa using hno⟩
      rw [List.toFinset_cons,Finset.union_insert,← Finset.insert_union]
      exact hafter

/-- In any order and with any repetitions before it, the last missing part makes the whole. -/
theorem answers_complete (xs : List α) (hx : x∉xs) (hgot : x∉got) (hw : insert x (got∪xs.toFinset)=whole) :
    answers (step whole) got (xs++[x])=answers (step whole) got xs++[.whole] ∧
      Answer.whole∉answers (step whole) got xs ∧ after (step whole) got (xs++[x])=∅ := by
  have hmem : x∈whole := hw ▸ Finset.mem_insert_self x _
  obtain ⟨hafter,hno⟩ := answers_missing xs ⟨x,hmem,hgot,hx⟩
  have hout : x∉got∪xs.toFinset := by simp [hgot,hx]
  rw [answers_concat,after_concat,answer,hafter,step_whole hout hw]
  exact ⟨rfl,hno,rfl⟩

end Bolina.Collector
