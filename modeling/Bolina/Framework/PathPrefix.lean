import Mathlib.Data.List.Basic
import Mathlib.Data.List.Infix

namespace Bolina.PathPrefix

variable {α : Type*} (sep : α)

/-- A nonempty beginning of a path that stops at its end or right in front of a separator. -/
def Ancestor (p r : List α) : Prop := p≠[] ∧ (p=r ∨ p++[sep]<+:r)

variable {sep}

theorem ancestor_self {r : List α} (h : r≠[]) : Ancestor sep r r := ⟨h,Or.inl rfl⟩

theorem ancestor_below {p : List α} (h : p≠[]) (x : List α) : Ancestor sep p (p++sep::x) := by
  refine ⟨h,Or.inr ⟨x,?_⟩⟩
  simp

/-- A path is no ancestor of one that goes on inside its last segment. -/
theorem not_ancestor_sibling {p : List α} {c : α} (hc : c≠sep) (x : List α) : ¬Ancestor sep p (p++c::x) := by
  intro hw
  obtain ⟨_,he | ⟨t,ht⟩⟩ := hw
  · have hl := congrArg List.length he
    simp at hl
  · rw [List.append_assoc] at ht
    have htail := List.append_cancel_left ht
    exact hc (List.cons.inj htail).1.symm

/-- Ancestors by where they stop. -/
theorem ancestor_iff_take {p r : List α} :
    Ancestor sep p r ↔ ∃k,0 < k ∧ k ≤ r.length ∧ p=r.take k ∧ (k=r.length ∨ r[k]?=some sep) := by
  constructor
  · intro hw
    obtain ⟨hne,rfl | ⟨t,rfl⟩⟩ := hw
    · exact ⟨p.length,List.length_pos_of_ne_nil hne,le_rfl,by simp,Or.inl rfl⟩
    · exact ⟨p.length,List.length_pos_of_ne_nil hne,by simp,by simp,Or.inr (by simp)⟩
  · intro hw
    obtain ⟨k,hpos,hle,rfl,hk⟩ := hw
    refine ⟨?_,?_⟩
    · intro hnil
      have hl := congrArg List.length hnil
      rw [List.length_take,List.length_nil] at hl
      omega
    · obtain rfl | hsep := hk
      · exact Or.inl List.take_length
      · right
        obtain ⟨hlt,hget⟩ := List.getElem?_eq_some_iff.mp hsep
        have htake : r.take (k+1)=r.take k++[sep] := by
          rw [List.take_add_one,hsep]
          rfl
        rw [← htake]
        exact List.take_prefix (k+1) r

end Bolina.PathPrefix
