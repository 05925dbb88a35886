import Bolina.Framework.KeyedTable
import Mathlib.Data.Finset.Card
import Mathlib.Data.List.Perm.Basic

/-! Sets with no more elements than they have room for, and the arrays that keep them. -/

namespace Bolina

structure BoundedSet (α : Type*) (cap : Nat) where
  elems : Finset α
  bounded : elems.card ≤ cap

namespace BoundedSet

open KeyedTable

variable {α : Type*} {cap : Nat}

def empty : BoundedSet α cap := ⟨∅,Nat.zero_le cap⟩

section Takes

variable {s : BoundedSet α cap} {x : α}

/-- An element is taken when it is new and there is room. -/
def Takes (s : BoundedSet α cap) (x : α) : Prop := x∉s.elems ∧ s.elems.card < cap

theorem not_takes : ¬s.Takes x ↔ x∈s.elems ∨ s.elems.card=cap := by
  have hle := s.bounded
  rw [Takes,not_and_or,not_not,not_lt]
  constructor
  · intro h
    cases h with
    | inl hm => exact .inl hm
    | inr hc => exact .inr (Nat.le_antisymm hle hc)
  · intro h
    cases h with
    | inl hm => exact .inl hm
    | inr hc => exact .inr hc.ge

end Takes

section Operations

variable [DecidableEq α] (s : BoundedSet α cap) (x : α)

instance : Decidable (s.Takes x) := inferInstanceAs (Decidable (_ ∧ _))

/-- The set behind an element that it may take. -/
def add : BoundedSet α cap :=
  if h : s.Takes x then ⟨insert x s.elems,(Finset.card_insert_le x s.elems).trans h.2⟩ else s

def remove : BoundedSet α cap := ⟨s.elems.erase x,Finset.card_erase_le.trans s.bounded⟩

variable {s x}

theorem add_of_takes (h : s.Takes x) : (s.add x).elems=insert x s.elems := by rw [add,dif_pos h]

theorem add_of_not_takes (h : ¬s.Takes x) : s.add x=s := dif_neg h

theorem remove_elems : (s.remove x).elems=s.elems.erase x := rfl

end Operations

/-- The array holds the elements of the set, each in one place. -/
structure Kept [DecidableEq α] (xs : List α) (s : BoundedSet α cap) : Prop where
  nodup : xs.Nodup
  elems : xs.toFinset=s.elems

section Kept

variable [DecidableEq α] {xs : List α} {s : BoundedSet α cap} {x y : α} {i : Nat}

theorem Kept.empty : Kept [] (empty : BoundedSet α cap) := ⟨List.nodup_nil,rfl⟩

theorem Kept.mem (h : Kept xs s) : y∈xs ↔ y∈s.elems := by rw [← h.elems,List.mem_toFinset]

theorem Kept.card (h : Kept xs s) : s.elems.card=xs.length := by
  rw [← h.elems,List.toFinset_card_of_nodup h.nodup]

theorem Kept.append (h : Kept xs s) (hx : s.Takes x) : Kept (xs++[x]) (s.add x) := by
  constructor
  · apply h.nodup.append (List.nodup_singleton x)
    rw [List.disjoint_singleton,h.mem]
    exact hx.1
  · rw [add_of_takes hx,← h.elems]
    ext y
    simp

/-- The last element fills the place of the one that goes. -/
theorem Kept.swapRemove (h : Kept xs s) (hi : xs[i]?=some x) : Kept (swapRemove xs i) (s.remove x) := by
  have hp := swapRemove_perm xs i x hi
  have hn : (x::KeyedTable.swapRemove xs i).Nodup := hp.nodup_iff.mpr h.nodup
  obtain ⟨hx,hn⟩ := List.nodup_cons.mp hn
  refine ⟨hn,?_⟩
  rw [remove_elems,← h.elems,← List.toFinset_eq_of_perm _ _ hp,List.toFinset_cons,
    Finset.erase_insert (by rwa [List.mem_toFinset])]

/-- An element that is not there leaves nothing to take out. -/
theorem Kept.remove_absent (h : Kept xs s) (hx : x∉xs) : Kept xs (s.remove x) := by
  refine ⟨h.nodup,?_⟩
  rw [remove_elems,h.elems,Finset.erase_eq_of_notMem]
  rwa [← h.mem]

end Kept

section Places

variable {β : Type*} {xs : List α} {i n : Nat}

theorem map_swapRemove (f : α → β) (xs : List α) (i : Nat) : (swapRemove xs i).map f=swapRemove (xs.map f) i := by
  rw [swapRemove,swapRemove,List.getLast?_map]
  cases xs.getLast? with
  | none => rfl
  | some last => simp only [Option.map_some,List.map_dropLast,List.map_set]

/-- In an array with room behind its elements, one write and a shorter length take one out. -/
theorem swapRemove_take (hn : n < xs.length) : swapRemove (xs.take (n+1)) i=(xs.set i xs[n]).take n := by
  have hlast : (xs.take (n+1)).getLast?=some xs[n] := by
    rw [List.getLast?_take,if_neg (Nat.succ_ne_zero n),Nat.add_sub_cancel,List.getElem?_eq_getElem hn]
    rfl
  have hlen : ((xs.set i xs[n]).take (n+1)).length-1=n := by
    rw [List.length_take,List.length_set]
    omega
  rw [swapRemove,hlast]
  dsimp only
  rw [← List.take_set,List.dropLast_eq_take,hlen,List.take_take,Nat.min_eq_left (Nat.le_succ n)]

theorem take_set_end (hn : n < xs.length) (x : α) : (xs.set n x).take (n+1)=xs.take n++[x] := by
  have hlen : n < (xs.set n x).length := by
    rw [List.length_set]
    exact hn
  rw [← List.take_append_getElem hlen,List.getElem_set_self,List.take_set_of_le le_rfl]

end Places

end BoundedSet

end Bolina
