import Mathlib.Data.Nat.ModEq
import Mathlib.Data.List.Basic
import Mathlib.Data.List.Count

/-! A ring that is written over in turn, and the last elements of what was put into it. -/

namespace Bolina.RecentRing

variable {α : Type*}

/-- The first `b` slots hold the last `b` of `xs`, each in its turn; the slots
whose turn has not come are blank. -/
structure Holds (b : Nat) (blank : α) (slots : List α) (next : Nat) (xs : List α) : Prop where
  next : next=xs.length%b
  recent : ∀j,j < xs.length → xs.length ≤ j+b → slots[j%b]?=xs[j]?
  blank : ∀i,xs.length ≤ i → i < b → slots[i]?=some blank

variable {b : Nat} {blank : α} {slots xs : List α} {next : Nat}

theorem holds_nil (h : ∀i,i < b → slots[i]?=some blank) : Holds b blank slots 0 [] :=
  ⟨(Nat.zero_mod b).symm,fun _ hj => absurd hj (Nat.not_lt_zero _),fun i _ hi => h i hi⟩

theorem Holds.next_lt (h : Holds b blank slots next xs) (hb : 0 < b) : next < b := by
  rw [h.next]
  exact Nat.mod_lt _ hb

/-- The slot whose turn it is held the oldest element, or none. -/
theorem Holds.push (h : Holds b blank slots next xs) (hb : 0 < b) (hlen : b ≤ slots.length) (x : α) :
    Holds b blank (slots.set next x) ((next+1)%b) (xs++[x]) := by
  have hnext := h.next_lt hb
  refine ⟨?_,?_,?_⟩
  · rw [h.next,List.length_append,List.length_singleton,Nat.mod_add_mod]
  · intro j hj hold
    rw [List.length_append,List.length_singleton] at hj hold
    by_cases he : j=xs.length
    · rw [he,← h.next,List.getElem?_set_self (hnext.trans_le hlen),List.getElem?_concat_length]
    · have hlt : j < xs.length := by omega
      have hother : next≠j%b := by
        -- two turns of one slot are `b` apart
        rw [h.next]
        intro hmod
        have hdvd := (Nat.modEq_iff_dvd' hlt.le).mp hmod.symm
        have hle := Nat.le_of_dvd (by omega) hdvd
        omega
      rw [List.getElem?_set_ne hother,List.getElem?_append_left hlt]
      exact h.recent j hlt (by omega)
  · intro i hi hib
    rw [List.length_append,List.length_singleton] at hi
    have hother : next≠i := by
      rw [h.next,Nat.mod_eq_of_lt (by omega)]
      omega
    rw [List.getElem?_set_ne hother]
    exact h.blank i (by omega) hib

/-- A test that a blank slot fails holds in all slots when `b` elements are in and
the last `b` of them pass it. -/
theorem Holds.all_iff (h : Holds b blank slots next xs) (p : α → Bool) (hblank : p blank=false) :
    (∀i,i < b → (slots[i]?).any p=true) ↔ b ≤ xs.length ∧ ∀x∈xs.drop (xs.length-b),p x=true := by
  constructor
  · intro hall
    have hfull : b ≤ xs.length := by
      by_contra hlt
      have hany := hall xs.length (by omega)
      rw [h.blank xs.length le_rfl (by omega),Option.any_some,hblank] at hany
      exact Bool.false_ne_true hany
    refine ⟨hfull,?_⟩
    intro x hx
    obtain ⟨k,hk,rfl⟩ := List.mem_iff_getElem.mp hx
    rw [List.length_drop] at hk
    have hlt : xs.length-b+k < xs.length := by omega
    have hb : 0 < b := by omega
    have hany := hall ((xs.length-b+k)%b) (Nat.mod_lt _ hb)
    rw [h.recent _ hlt (by omega),List.getElem?_eq_getElem hlt,Option.any_some] at hany
    rwa [List.getElem_drop]
  · intro hw i hi
    obtain ⟨hfull,hall⟩ := hw
    -- the last turn of slot `i`
    obtain ⟨j,hmod,hlt,hold⟩ : ∃j,j%b=i ∧ j < xs.length ∧ xs.length ≤ j+b := by
      have hb : 0 < b := by omega
      have hdiv := Nat.div_add_mod (xs.length-1-i) b
      have hrem := Nat.mod_lt (xs.length-1-i) hb
      refine ⟨i+b*((xs.length-1-i)/b),?_,by omega,by omega⟩
      rw [Nat.add_mul_mod_self_left,Nat.mod_eq_of_lt hi]
    rw [← hmod,h.recent j hlt hold,List.getElem?_eq_getElem hlt,Option.any_some]
    apply hall
    rw [List.mem_iff_getElem]
    refine ⟨j-(xs.length-b),by rw [List.length_drop]; omega,?_⟩
    rw [List.getElem_drop]
    congr 1
    omega

/-- Where a test that holds goes on holding, at least `b` elements pass it when the
last `b` do. -/
theorem le_countP_iff (p : α → Bool) (h : xs.Pairwise (fun a c => p a=true → p c=true)) (b : Nat) :
    b ≤ xs.countP p ↔ b ≤ xs.length ∧ ∀x∈xs.drop (xs.length-b),p x=true := by
  induction xs with
  | nil => simp
  | cons x xs ih =>
    obtain ⟨hx,hxs⟩ := List.pairwise_cons.mp h
    by_cases hp : p x=true
    · have hall : ∀y∈x::xs,p y=true := by
        intro y hy
        cases List.mem_cons.mp hy with
        | inl he => rw [he,hp]
        | inr hy => exact hx y hy hp
      rw [List.countP_eq_length.mpr hall]
      exact ⟨fun hb => ⟨hb,fun y hy => hall y (List.mem_of_mem_drop hy)⟩,fun hw => hw.1⟩
    · rw [List.countP_cons_of_neg hp,ih hxs,List.length_cons]
      by_cases hb : b ≤ xs.length
      · have hd : xs.length+1-b=xs.length-b+1 := by omega
        rw [hd,List.drop_succ_cons]
        exact and_congr_left (fun _ => iff_of_true hb (by omega))
      · refine iff_of_false (fun hw => hb hw.1) ?_
        intro hw
        obtain ⟨hle,hall⟩ := hw
        have hd : xs.length+1-b=0 := by omega
        rw [hd,List.drop_zero] at hall
        exact hp (hall x List.mem_cons_self)

end Bolina.RecentRing
