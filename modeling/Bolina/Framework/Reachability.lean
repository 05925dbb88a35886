import Mathlib.Data.List.Basic
import Mathlib.Logic.Relation

namespace Bolina.Reachability

open Relation

variable {α : Type*} {r : α → α → Prop}

/-- The relation with one more edge. -/
def addEdge (r : α → α → Prop) (a b x y : α) : Prop := r x y ∨ x=a ∧ y=b

def Acyclic (r : α → α → Prop) : Prop := ∀x,¬TransGen r x x

section Edges

variable {a b x y : α}

/-- A path with the new edge needs it once: up to its start and on from its end. -/
theorem transGen_addEdge :
    TransGen (addEdge r a b) x y ↔ TransGen r x y ∨ ReflTransGen r x a ∧ ReflTransGen r b y := by
  constructor
  · intro h
    induction h with
    | single hxy =>
      obtain hxy | ⟨rfl,rfl⟩ := hxy
      · exact Or.inl (TransGen.single hxy)
      · exact Or.inr ⟨ReflTransGen.refl,ReflTransGen.refl⟩
    | tail _ hyz ih =>
      obtain hyz | ⟨rfl,rfl⟩ := hyz
      · obtain h | ⟨ha,hb⟩ := ih
        · exact Or.inl (h.tail hyz)
        · exact Or.inr ⟨ha,hb.tail hyz⟩
      · obtain h | ⟨ha,_⟩ := ih
        · exact Or.inr ⟨h.to_reflTransGen,ReflTransGen.refl⟩
        · exact Or.inr ⟨ha,ReflTransGen.refl⟩
  · intro h
    have hold : r ≤ addEdge r a b := fun _ _ h => Or.inl h
    obtain h | ⟨ha,hb⟩ := h
    · exact TransGen.mono hold _ _ h
    · have hab : TransGen (addEdge r a b) x b := TransGen.tail' (ReflTransGen.mono hold _ _ ha) (Or.inr ⟨rfl,rfl⟩)
      exact hab.trans_left (ReflTransGen.mono hold _ _ hb)

/-- From where its start is not reached the new edge is not seen. -/
theorem transGen_addEdge_of_apart (h : ¬ReflTransGen r x a) :
    TransGen (addEdge r a b) x y ↔ TransGen r x y := by
  rw [transGen_addEdge]
  exact or_iff_left (fun hab => h hab.1)

/-- An edge closes a cycle exactly if its start is reached from its end. -/
theorem acyclic_addEdge_iff (h : Acyclic r) : Acyclic (addEdge r a b) ↔ ¬ReflTransGen r b a := by
  constructor
  · intro hac hba
    exact hac a (transGen_addEdge.mpr (Or.inr ⟨ReflTransGen.refl,hba⟩))
  · intro hba z hz
    obtain hz | ⟨ha,hb⟩ := transGen_addEdge.mp hz
    · exact h z hz
    · exact hba (hb.trans ha)

theorem addEdge_of_edge (h : r a b) (x y : α) : addEdge r a b x y ↔ r x y := by
  refine or_iff_left_of_imp ?_
  intro he
  rw [he.1,he.2]
  exact h

end Edges

section Labels

variable {β : Type*} {f : α → Option β} {a b : β}

/-- The relation on the labels of what is labelled. -/
def labelled (f : α → Option β) (r : α → α → Prop) (a b : β) : Prop := ∃i j,f i=some a ∧ f j=some b ∧ r i j

/-- Where a label is one element's, it stands for that element. -/
theorem labelled_at (hf : ∀i j a,f i=some a → f j=some a → i=j) {i j : α} (hi : f i=some a) (hj : f j=some b) :
    r i j ↔ labelled f r a b := by
  constructor
  · intro h
    exact ⟨i,j,hi,hj,h⟩
  · intro h
    obtain ⟨i',j',hi',hj',h⟩ := h
    rwa [hf i i' a hi hi',hf j j' b hj hj']

/-- Where a label is one element's, the paths between labels are those between the elements. -/
theorem transGen_labelled (hf : ∀i j a,f i=some a → f j=some a → i=j) (hr : ∀i j,r i j → ∃a,f i=some a) :
    TransGen (labelled f r) a b ↔ labelled f (TransGen r) a b := by
  constructor
  · intro h
    induction h with
    | single h =>
      obtain ⟨i,j,hi,hj,hij⟩ := h
      exact ⟨i,j,hi,hj,TransGen.single hij⟩
    | tail _ h ih =>
      obtain ⟨i,j,hi,hj,hij⟩ := ih
      obtain ⟨j',k,hj',hk,hjk⟩ := h
      obtain rfl := hf j j' _ hj hj'
      exact ⟨i,k,hi,hk,hij.tail hjk⟩
  · intro h
    obtain ⟨i,j,hi,hj,hij⟩ := h
    induction hij generalizing b with
    | single hij => exact TransGen.single ⟨i,_,hi,hj,hij⟩
    | tail _ hkj ih =>
      obtain ⟨c,hc⟩ := hr _ _ hkj
      exact (ih hc).tail ⟨_,_,hc,hj,hkj⟩

theorem acyclic_labelled (hf : ∀i j a,f i=some a → f j=some a → i=j) (hr : ∀i j,r i j → ∃a,f i=some a)
    (h : Acyclic r) : Acyclic (labelled f r) := by
  intro a ha
  obtain ⟨i,j,hi,hj,hij⟩ := (transGen_labelled hf hr).mp ha
  rw [← hf i j a hi hj] at hij
  exact h i hij

theorem labelled_addEdge {i j : α} (hi : f i=some a) (hj : f j=some b) (x y : β) :
    labelled f (addEdge r i j) x y ↔ addEdge (labelled f r) a b x y := by
  constructor
  · intro h
    obtain ⟨k,l,hk,hl,h⟩ := h
    obtain h | ⟨hki,hlj⟩ := h
    · exact Or.inl ⟨k,l,hk,hl,h⟩
    · rw [hki,hi] at hk
      rw [hlj,hj] at hl
      exact Or.inr ⟨(Option.some.inj hk).symm,(Option.some.inj hl).symm⟩
  · intro h
    obtain ⟨k,l,hk,hl,h⟩ | ⟨hx,hy⟩ := h
    · exact ⟨k,l,hk,hl,Or.inl h⟩
    · rw [hx,hy]
      exact ⟨i,j,hi,hj,Or.inr ⟨rfl,rfl⟩⟩

end Labels

section Search

variable {start target : α} {found : List α} {done : Nat}

/-- A search from `start` for `target`: all that it has found is reached, and behind the first `done`
of it nothing new is left, and no target. -/
structure Frontier (r : α → α → Prop) (start target : α) (found : List α) (done : Nat) : Prop where
  begins : start∈found
  reached : ∀x∈found,ReflTransGen r start x
  closed : ∀x∈found.take done,∀y,r x y → y∈found ∧ y≠target

theorem frontier_start : Frontier r start target [start] 0 := by
  refine ⟨List.mem_singleton_self _,?_,?_⟩
  · intro x hx
    rw [List.mem_singleton.mp hx]
  · intro x hx
    rw [List.take_zero] at hx
    exact absurd hx List.not_mem_nil

/-- One more found element is looked behind. -/
theorem Frontier.next (h : Frontier r start target found done) {x : α} (hx : found[done]?=some x)
    {more : List α} (hmore : ∀y∈more,r x y) (hall : ∀y,r x y → y∈found++more ∧ y≠target) :
    Frontier r start target (found++more) (done+1) := by
  have hxin : x∈found := List.mem_of_getElem? hx
  refine ⟨List.mem_append_left _ h.begins,?_,?_⟩
  · intro y hy
    obtain hy | hy := List.mem_append.mp hy
    · exact h.reached y hy
    · exact (h.reached x hxin).tail (hmore y hy)
  · obtain ⟨hlt,_⟩ := List.getElem?_eq_some_iff.mp hx
    intro z hz y hzy
    rw [List.take_append_of_le_length hlt,List.take_add_one,hx,List.mem_append] at hz
    obtain hz | hz := hz
    · obtain ⟨hy,hne⟩ := h.closed z hz y hzy
      exact ⟨List.mem_append_left _ hy,hne⟩
    · rw [List.mem_singleton.mp hz] at hzy
      exact hall y hzy

/-- A search that has nothing left to look behind has not missed the target. -/
theorem Frontier.not_reached (h : Frontier r start target found found.length) : ¬TransGen r start target := by
  have hall : ∀y,TransGen r start y → y∈found ∧ y≠target := by
    intro y hy
    have hstep : ∀x∈found,∀y,r x y → y∈found ∧ y≠target := by
      intro x hx
      apply h.closed x
      rwa [List.take_length]
    induction hy with
    | single hxy => exact hstep start h.begins _ hxy
    | tail _ hyz ih => exact hstep _ ih.1 _ hyz
  exact fun ht => (hall target ht).2 rfl

end Search

end Bolina.Reachability
