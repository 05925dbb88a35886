import Mathlib.Algebra.BigOperators.Fin
import Mathlib.Algebra.BigOperators.Group.Finset.Piecewise
import Mathlib.Algebra.Order.BigOperators.Group.Finset

/-! Arrays of slots, and what their slots sum up to. -/

namespace Bolina.Slots

variable {α : Type*} {n : Nat}

/-- The sum of a measure over the slots. -/
def total (f : α → Nat) (slots : Fin n → α) : Nat := ∑i,f (slots i)

section Total

variable (f : α → Nat) (slots : Fin n → α) (i : Fin n) (a : α)

/-- A slot that is written takes its old share out and puts its new one in. -/
theorem total_update : total f (Function.update slots i a)+f (slots i)=total f slots+f a := by
  have hrest : ∑j∈Finset.univ.erase i,f (Function.update slots i a j)=∑j∈Finset.univ.erase i,f (slots j) := by
    apply Finset.sum_congr rfl
    intro j hj
    rw [Function.update_of_ne (Finset.ne_of_mem_erase hj)]
  rw [total,total,← Finset.sum_erase_add _ _ (Finset.mem_univ i),← Finset.sum_erase_add _ _ (Finset.mem_univ i),hrest,
    Function.update_self]
  omega

theorem le_total : f (slots i) ≤ total f slots :=
  Finset.single_le_sum (f := fun j => f (slots j)) (fun _ _ => Nat.zero_le _) (Finset.mem_univ i)

theorem total_eq_zero (h : ∀i,f (slots i)=0) : total f slots=0 := Finset.sum_eq_zero (fun i _ => h i)

/-- Where no slot measures more than one, the sum is within the number of slots. -/
theorem total_le (h : ∀i,f (slots i) ≤ 1) : total f slots ≤ n := by
  have hsum := Finset.sum_le_card_nsmul Finset.univ (fun i => f (slots i)) 1 (fun i _ => h i)
  rwa [Finset.card_univ,Fintype.card_fin,nsmul_one] at hsum

end Total

/-- The only slot that passes a test is the first that does. -/
theorem find_unique {p : Fin n → Bool} {i : Fin n} (hi : p i=true) (h : ∀j,p j=true → j=i) : Fin.find? p=some i := by
  rw [Fin.find?_eq_some_iff]
  refine ⟨hi,?_⟩
  intro j hj
  by_contra hp
  rw [Bool.not_eq_false] at hp
  exact absurd (h j hp) (ne_of_lt hj)

end Bolina.Slots
