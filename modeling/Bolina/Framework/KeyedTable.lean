import Mathlib.Data.List.Nodup
import Mathlib.Order.Lattice

namespace Bolina.KeyedTable

variable {α κ β : Type*}

/-- A table with one entry a key and no more entries than it has room for. -/
structure Bounded (key : α → κ) (cap : Nat) (xs : List α) : Prop where
  distinct : (xs.map key).Nodup
  size : xs.length ≤ cap

/-- Element `i` is taken out and the last one moved to its place. -/
def swapRemove (xs : List α) (i : Nat) : List α :=
  match xs.getLast? with
  | none => []
  | some last => (xs.set i last).dropLast

/-- The first entry of the same key gives way to the new one, if there is one. -/
def refresh [DecidableEq κ] (key : α → κ) (x : α) : List α → Option (List α)
  | [] => none
  | y::ys => if key y=key x then some (x::ys) else (refresh key x ys).map (y::·)

/-- The first entry of the lowest value, with its position. -/
def lowest [LinearOrder β] (f : α → β) : List α → Option (Nat × α)
  | [] => none
  | x::xs =>
    match lowest f xs with
    | none => some (0,x)
    | some (i,y) => if f x ≤ f y then some (0,x) else some (i+1,y)

section SwapRemove

theorem set_perm (xs : List α) (i : Nat) (x y : α) (h : xs[i]?=some x) : (x::xs.set i y).Perm (y::xs) := by
  induction xs generalizing i with
  | nil => simp at h
  | cons z xs ih =>
    cases i with
    | zero =>
      rw [List.getElem?_cons_zero,Option.some.injEq] at h
      subst h
      exact List.Perm.swap _ _ _
    | succ i =>
      rw [List.getElem?_cons_succ] at h
      have hswap : (x::z::xs.set i y).Perm (z::x::xs.set i y) := List.Perm.swap _ _ _
      have hin : (z::x::xs.set i y).Perm (z::y::xs) := (ih i h).cons z
      exact (hswap.trans hin).trans (List.Perm.swap _ _ _)

/-- What is taken out and what stays are the list, in another order. -/
theorem swapRemove_perm (xs : List α) (i : Nat) (x : α) (h : xs[i]?=some x) : (x::swapRemove xs i).Perm xs := by
  obtain rfl|⟨ys,last,rfl⟩ := xs.eq_nil_or_concat
  · simp at h
  · rw [List.concat_eq_append] at h ⊢
    have hswap : swapRemove (ys++[last]) i=((ys++[last]).set i last).dropLast := by simp [swapRemove]
    rw [hswap]
    by_cases hi : i < ys.length
    · rw [List.getElem?_append_left hi] at h
      rw [List.set_append_left _ _ hi,List.dropLast_concat]
      exact (set_perm ys i x last h).trans (List.perm_append_singleton last ys).symm
    · rw [List.getElem?_append_right (Nat.le_of_not_lt hi)] at h
      have hz : i-ys.length=0 := by
        by_contra hne
        rw [List.getElem?_cons,if_neg hne] at h
        simp at h
      rw [hz,List.getElem?_cons_zero,Option.some.injEq] at h
      subst h
      rw [List.set_append_right _ _ (Nat.le_of_not_lt hi),hz,List.set_cons_zero,List.dropLast_concat]
      exact (List.perm_append_singleton _ _).symm

end SwapRemove

section Refresh

variable [DecidableEq κ] {key : α → κ} {x : α} {xs ys : List α}

theorem refresh_eq_none : refresh key x xs=none ↔ ∀y∈xs,key y≠key x := by
  induction xs with
  | nil => simp [refresh]
  | cons z xs ih =>
    rw [refresh]
    by_cases hz : key z=key x
    · simp [hz]
    · simp [hz,ih]

theorem refresh_keys (h : refresh key x xs=some ys) : ys.map key=xs.map key := by
  induction xs generalizing ys with
  | nil => cases h
  | cons z xs ih =>
    rw [refresh] at h
    by_cases hz : key z=key x
    · rw [if_pos hz] at h
      cases h
      rw [List.map_cons,List.map_cons,hz]
    · rw [if_neg hz] at h
      obtain ⟨zs,hzs,rfl⟩ := Option.map_eq_some_iff.mp h
      rw [List.map_cons,List.map_cons,ih hzs]

/-- Where no key stands twice, the new entry takes the place of the one of its key. -/
theorem mem_refresh (h : refresh key x xs=some ys) (hdistinct : (xs.map key).Nodup) (y : α) :
    y∈ys ↔ y=x ∨ (y∈xs ∧ key y≠key x) := by
  induction xs generalizing ys with
  | nil => cases h
  | cons z xs ih =>
    rw [refresh] at h
    rw [List.map_cons,List.nodup_cons] at hdistinct
    by_cases hz : key z=key x
    · rw [if_pos hz] at h
      cases h
      have hother : ∀y∈xs,key y≠key x := by
        intro y hy he
        exact hdistinct.1 (List.mem_map.mpr ⟨y,hy,he.trans hz.symm⟩)
      constructor
      · intro hy
        obtain rfl | hy := List.mem_cons.mp hy
        · exact .inl rfl
        · exact .inr ⟨List.mem_cons_of_mem _ hy,hother y hy⟩
      · intro hy
        obtain rfl | ⟨hy,hne⟩ := hy
        · exact List.mem_cons_self
        · obtain rfl | hy := List.mem_cons.mp hy
          · exact absurd hz hne
          · exact List.mem_cons_of_mem _ hy
    · rw [if_neg hz] at h
      obtain ⟨zs,hzs,rfl⟩ := Option.map_eq_some_iff.mp h
      rw [List.mem_cons,List.mem_cons,ih hzs hdistinct.2]
      constructor
      · intro hy
        obtain rfl | rfl | ⟨hy,hne⟩ := hy
        · exact .inr ⟨.inl rfl,hz⟩
        · exact .inl rfl
        · exact .inr ⟨.inr hy,hne⟩
      · intro hy
        obtain rfl | ⟨rfl | hy,hne⟩ := hy
        · exact .inr (.inl rfl)
        · exact .inl rfl
        · exact .inr (.inr ⟨hy,hne⟩)

end Refresh

section Lowest

variable [LinearOrder β] (f : α → β)

theorem lowest_isSome (xs : List α) (h : xs≠[]) : ∃i x,lowest f xs=some (i,x) := by
  cases xs with
  | nil => exact absurd rfl h
  | cons x xs =>
    rw [lowest]
    cases lowest f xs with
    | none => exact ⟨0,x,rfl⟩
    | some p =>
      by_cases hle : f x ≤ f p.2
      · exact ⟨0,x,by simp only [if_pos hle]⟩
      · exact ⟨p.1+1,p.2,by simp only [if_neg hle]⟩

theorem lowest_spec (xs : List α) (i : Nat) (x : α) (h : lowest f xs=some (i,x)) :
    xs[i]?=some x ∧ ∀y∈xs,f x ≤ f y := by
  induction xs generalizing i x with
  | nil => simp [lowest] at h
  | cons z xs ih =>
    rw [lowest] at h
    cases hl : lowest f xs with
    | none =>
      have hnil : xs=[] := by
        by_contra hne
        obtain ⟨j,y,hy⟩ := lowest_isSome f xs hne
        rw [hl] at hy
        cases hy
      rw [hl] at h
      cases h
      subst hnil
      simp
    | some p =>
      obtain ⟨hat,hmin⟩ := ih p.1 p.2 hl
      rw [hl] at h
      by_cases hle : f z ≤ f p.2
      · simp only [if_pos hle] at h
        cases h
        refine ⟨rfl,?_⟩
        intro y hy
        cases List.mem_cons.mp hy with
        | inl he => rw [he]
        | inr hy => exact le_trans hle (hmin y hy)
      · simp only [if_neg hle] at h
        cases h
        refine ⟨hat,?_⟩
        intro y hy
        cases List.mem_cons.mp hy with
        | inl he =>
          rw [he]
          exact le_of_lt (not_le.mp hle)
        | inr hy => exact hmin y hy

end Lowest

section Bounded

variable {key : α → κ} {cap : Nat} {xs : List α}

theorem Bounded.nil : Bounded key cap [] := ⟨List.nodup_nil,Nat.zero_le _⟩

/-- A new key is taken while there is room. -/
theorem Bounded.append (h : Bounded key cap xs) (x : α) (hx : ∀y∈xs,key y≠key x)
    (hroom : xs.length < cap) : Bounded key cap (xs++[x]) := by
  constructor
  · rw [List.map_append,List.map_singleton]
    apply List.nodup_append.mpr
    refine ⟨h.distinct,List.nodup_singleton _,?_⟩
    intro a ha b hb
    obtain ⟨y,hy,he⟩ := List.mem_map.mp ha
    rw [List.mem_singleton.mp hb,← he]
    exact hx y hy
  · rw [List.length_append,List.length_singleton]
    exact hroom

/-- Entries that change under their keys leave the table as bounded as it was. -/
theorem Bounded.of_map {ys : List α} (h : Bounded key cap xs) (hk : ys.map key=xs.map key) :
    Bounded key cap ys := by
  have hl : ys.length=xs.length := by simpa using congrArg List.length hk
  exact ⟨by rw [hk]; exact h.distinct,by rw [hl]; exact h.size⟩

theorem Bounded.filter (h : Bounded key cap xs) (p : α → Bool) : Bounded key cap (xs.filter p) :=
  ⟨h.distinct.sublist (List.filter_sublist.map key),(List.length_filter_le p xs).trans h.size⟩

/-- One entry taken out: what stays is bounded and has room, and the one taken out was
the only one of its key. -/
theorem Bounded.swapRemove {i : Nat} {x : α} (h : Bounded key cap xs) (hi : xs[i]?=some x) :
    Bounded key cap (swapRemove xs i) ∧ (KeyedTable.swapRemove xs i).length < cap ∧
      ∀y∈KeyedTable.swapRemove xs i,key y≠key x := by
  have hp := swapRemove_perm xs i x hi
  have hn : (key x::(KeyedTable.swapRemove xs i).map key).Nodup := (hp.map key).nodup_iff.mpr h.distinct
  obtain ⟨hx,hn⟩ := List.nodup_cons.mp hn
  have hl : (KeyedTable.swapRemove xs i).length+1=xs.length := hp.length_eq
  have hsize := h.size
  refine ⟨⟨hn,by omega⟩,by omega,?_⟩
  intro y hy he
  exact hx (List.mem_map.mpr ⟨y,hy,he⟩)

end Bounded

end Bolina.KeyedTable
