import Mathlib.Data.List.Basic

namespace Bolina.SinceLog

variable {α : Type*} (resets : α → Bool)

/-- The newest entries of a log, down to the last one that resets. -/
def since (log : List α) : List α := log.takeWhile (fun a => !resets a)

/-- The last entry that resets. -/
def lastReset (log : List α) : Option α := log.find? resets

variable {resets} {new log : List α} {a : α}

theorem since_quiet (h : ∀a∈new,resets a=false) : since resets (new++log)=new++since resets log := by
  apply List.takeWhile_append_of_pos
  intro a ha
  rw [h a ha]
  rfl

theorem lastReset_quiet (h : ∀a∈new,resets a=false) : lastReset resets (new++log)=lastReset resets log := by
  have hn : new.find? resets=none := by
    rw [List.find?_eq_none]
    intro a ha hr
    rw [h a ha] at hr
    cases hr
  rw [lastReset,List.find?_append,hn,Option.none_or]
  rfl

theorem lastReset_reset (h : resets a=true) : lastReset resets (a::log)=some a := List.find?_cons_of_pos h

/-- A reset among the new entries cuts the old ones off. -/
theorem mem_since_cut {b : α} (ha : a∈new) (hr : resets a=true) (hb : b∈since resets (new++log)) : b∈new := by
  induction new with
  | nil => cases ha
  | cons c new ih =>
    rw [List.cons_append,since] at hb
    by_cases hc : resets c=true
    · rw [List.takeWhile_cons_of_neg (by rw [hc]; decide)] at hb
      cases hb
    · rw [List.takeWhile_cons_of_pos (by rw [Bool.not_eq_true] at hc; rw [hc]; rfl)] at hb
      cases List.mem_cons.mp hb with
      | inl he =>
        rw [he]
        exact List.mem_cons_self
      | inr hb =>
        cases List.mem_cons.mp ha with
        | inl he =>
          rw [he] at hr
          exact absurd hr hc
        | inr ha => exact List.mem_cons_of_mem c (ih ha hb)

end Bolina.SinceLog
