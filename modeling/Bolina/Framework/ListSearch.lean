import Mathlib.Data.List.Infix

namespace Bolina.ListSearch

variable {α : Type*} [BEq α] [LawfulBEq α]

/-- The position of the first place where `needle` occurs. -/
def findSub (needle : List α) : List α → Option Nat
  | [] => if needle.isEmpty then some 0 else none
  | x::xs => if needle.isPrefixOf (x::xs) then some 0 else (findSub needle xs).map (·+1)

variable {needle xs : List α} {i : Nat}

theorem findSub_some (h : findSub needle xs=some i) : needle <+: xs.drop i ∧ ∀j < i,¬needle <+: xs.drop j := by
  induction xs generalizing i with
  | nil =>
    rw [findSub] at h
    split at h
    · next he =>
      cases h
      rw [List.isEmpty_iff.mp he]
      exact ⟨List.nil_prefix,fun j hj => absurd hj (Nat.not_lt_zero j)⟩
    · cases h
  | cons x xs ih =>
    rw [findSub] at h
    by_cases hp : needle.isPrefixOf (x::xs)=true
    · rw [if_pos hp] at h
      cases h
      exact ⟨List.isPrefixOf_iff_prefix.mp hp,fun j hj => absurd hj (Nat.not_lt_zero j)⟩
    · rw [if_neg hp] at h
      obtain ⟨k,hk,rfl⟩ := Option.map_eq_some_iff.mp h
      obtain ⟨hat,hmin⟩ := ih hk
      refine ⟨hat,?_⟩
      intro j hj
      cases j with
      | zero =>
        intro hpre
        exact hp (List.isPrefixOf_iff_prefix.mpr hpre)
      | succ j => exact hmin j (Nat.lt_of_succ_lt_succ hj)

theorem findSub_none (h : findSub needle xs=none) (i : Nat) : ¬needle <+: xs.drop i := by
  induction xs generalizing i with
  | nil =>
    rw [findSub] at h
    split at h
    · cases h
    · next he =>
      intro hp
      rw [List.drop_nil,List.prefix_nil] at hp
      exact he (List.isEmpty_iff.mpr hp)
  | cons x xs ih =>
    rw [findSub] at h
    by_cases hp : needle.isPrefixOf (x::xs)=true
    · rw [if_pos hp] at h
      cases h
    · rw [if_neg hp,Option.map_eq_none_iff] at h
      cases i with
      | zero =>
        intro hpre
        exact hp (List.isPrefixOf_iff_prefix.mpr hpre)
      | succ i => exact ih h i

/-- The first occurrence is the one with none before it. -/
theorem findSub_eq_some : findSub needle xs=some i ↔ needle <+: xs.drop i ∧ ∀j < i,¬needle <+: xs.drop j := by
  constructor
  · exact findSub_some
  · intro h
    cases hf : findSub needle xs with
    | none => exact absurd h.1 (findSub_none hf i)
    | some k =>
      obtain ⟨hat,hmin⟩ := findSub_some hf
      have hik : ¬k < i := fun hlt => h.2 k hlt hat
      have hki : ¬i < k := fun hlt => hmin i hlt h.1
      have he : k=i := by omega
      rw [he]

theorem findSub_eq_none : findSub needle xs=none ↔ ∀i,¬needle <+: xs.drop i := by
  constructor
  · exact findSub_none
  · intro h
    cases hf : findSub needle xs with
    | none => rfl
    | some k => exact absurd (findSub_some hf).1 (h k)

theorem findSub_le (h : findSub needle xs=some i) : i+needle.length ≤ xs.length := by
  have hi : i ≤ xs.length := by
    by_contra hlt
    have hnil : xs.drop i=[] := List.drop_eq_nil_iff.mpr (by omega)
    obtain ⟨hat,hmin⟩ := findSub_some h
    rw [hnil,List.prefix_nil] at hat
    exact hmin 0 (by omega) (by rw [hat]; exact List.nil_prefix)
  have hl := (findSub_some h).1.length_le
  rw [List.length_drop] at hl
  omega

/-- What is searched, around its first occurrence of the needle. -/
theorem findSub_split (h : findSub needle xs=some i) :
    xs=xs.take i++(needle++xs.drop (i+needle.length)) := by
  obtain ⟨rest,hrest⟩ := (findSub_some h).1
  have hdrop : xs.drop (i+needle.length)=rest := by rw [← List.drop_drop,← hrest,List.drop_left]
  rw [hdrop,hrest,List.take_append_drop]

omit [BEq α] [LawfulBEq α] in
theorem prefix_drop_append (ys : List α) (hi : i+needle.length ≤ xs.length) :
    needle <+: (xs++ys).drop i ↔ needle <+: xs.drop i := by
  rw [List.drop_append_of_le_length (by omega)]
  constructor
  · intro h
    exact List.prefix_of_prefix_length_le h (List.prefix_append _ _) (by rw [List.length_drop]; omega)
  · intro h
    exact h.trans (List.prefix_append _ _)

/-- What comes behind an occurrence does not move it. -/
theorem findSub_append (ys : List α) (hi : i+needle.length ≤ xs.length) :
    findSub needle (xs++ys)=some i ↔ findSub needle xs=some i := by
  rw [findSub_eq_some,findSub_eq_some,prefix_drop_append ys hi]
  refine and_congr_right (fun _ => ⟨fun h j hj => ?_,fun h j hj => ?_⟩)
  · rw [← prefix_drop_append ys (by omega)]
    exact h j hj
  · rw [prefix_drop_append ys (by omega)]
    exact h j hj

/-- Where the first element does not stand before, the needle does not either. -/
theorem findSub_first (front back : List α) (x : α) (h : x∉front) :
    findSub (x::needle) (front++((x::needle)++back))=some front.length := by
  rw [findSub_eq_some]
  constructor
  · rw [List.drop_left]
    exact List.prefix_append _ _
  · intro j hj hp
    rw [List.drop_append_of_le_length (by omega),List.drop_eq_getElem_cons hj,List.cons_append] at hp
    have hx := (List.cons_prefix_cons.mp hp).1
    exact h (by rw [hx]; exact List.getElem_mem hj)

theorem findSub_absent (x : α) (h : x∉xs) : findSub (x::needle) xs=none := by
  rw [findSub_eq_none]
  intro i hp
  exact h (List.mem_of_mem_drop (hp.subset List.mem_cons_self))

theorem idxOf?_first (front back : List α) (x : α) (h : x∉front) :
    (front++x::back).idxOf? x=some front.length := by
  induction front with
  | nil => simp [List.idxOf?_cons]
  | cons y front ih =>
    rw [List.mem_cons,not_or] at h
    have hy : (y==x)=false := by simpa using Ne.symm h.1
    rw [List.cons_append,List.idxOf?_cons,hy,ih h.2]
    rfl

/-- A list cut at the first place of an element. -/
theorem idxOf?_cut [DecidableEq α] {x : α} (h : xs.idxOf? x=some i) :
    x∈xs ∧ xs.take i=xs.takeWhile (fun y => y≠x) ∧ xs.drop i=xs.dropWhile (fun y => y≠x) := by
  induction xs generalizing i with
  | nil => cases h
  | cons y xs ih =>
    rw [List.idxOf?_cons] at h
    by_cases hy : y=x
    · subst hy
      rw [if_pos (beq_self_eq_true y)] at h
      cases h
      exact ⟨List.mem_cons_self,by simp,by simp⟩
    · rw [if_neg (by simpa using hy)] at h
      obtain ⟨k,hk,rfl⟩ := Option.map_eq_some_iff.mp h
      obtain ⟨hmem,htake,hdrop⟩ := ih hk
      refine ⟨List.mem_cons_of_mem y hmem,?_,?_⟩
      · rw [List.take_succ_cons,htake,List.takeWhile_cons_of_pos (by simpa using hy)]
      · rw [List.drop_succ_cons,hdrop,List.dropWhile_cons_of_pos (by simpa using hy)]

theorem idxOf?_split {x : α} (h : xs.idxOf? x=some i) : xs=xs.take i++x::xs.drop (i+1) := by
  obtain ⟨hlt,hat,_⟩ := List.idxOf?_eq_some_iff.mp h
  rw [← hat,← List.drop_eq_getElem_cons hlt,List.take_append_drop]

omit [BEq α] [LawfulBEq α] in
/-- Where a test that holds goes on holding, the part from its first place on is what it selects. -/
theorem drop_first (p : α → Bool) (h : xs.Pairwise (fun a b => p a=true → p b=true)) :
    xs.drop ((xs.findIdx? p).getD xs.length)=xs.filter p := by
  induction xs with
  | nil => rfl
  | cons x xs ih =>
    obtain ⟨hx,hxs⟩ := List.pairwise_cons.mp h
    rw [List.findIdx?_cons]
    cases hp : p x with
    | true =>
      have hall : (x::xs).filter p=x::xs := by
        rw [List.filter_eq_self]
        intro y hy
        cases List.mem_cons.mp hy with
        | inl he => rw [he,hp]
        | inr hy => exact hx y hy hp
      rw [hall]
      rfl
    | false =>
      rw [List.filter_cons_of_neg (by rw [hp]; decide),← ih hxs]
      cases hf : xs.findIdx? p with
      | none => rfl
      | some i => rfl

end Bolina.ListSearch
