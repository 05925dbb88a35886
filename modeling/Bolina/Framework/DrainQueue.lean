import Mathlib.Data.List.Basic

/-! A queue that is read a bounded number of times a round, and that grows as it is read. -/

namespace Bolina.DrainQueue

variable {α : Type*}

/-- What a round took, left and saw come in, and whether it ended at an empty queue. -/
structure Round (α : Type*) where
  taken : List α
  left : List α
  came : List α
  dry : Bool

/-- At most `k` reads from the read `i` on; `arrive i` comes in before the read `i`. -/
def round (arrive : Nat → List α) : Nat → Nat → List α → Round α
  | 0,_,q => ⟨[],q,[],false⟩
  | k+1,i,q =>
    match q++arrive i with
    | [] => ⟨[],[],[],true⟩
    | a::rest =>
      let r := round arrive k (i+1) rest
      ⟨a::r.taken,r.left,arrive i++r.came,r.dry⟩

/-- The reads of a round: the last one of a dry round finds nothing. -/
def Round.reads (r : Round α) : Nat := r.taken.length+r.dry.toNat

section Round

variable {arrive : Nat → List α} {k i : Nat} {q rest : List α} {a : α}

theorem round_empty (h : q++arrive i=[]) : round arrive (k+1) i q=⟨[],[],[],true⟩ := by
  rw [round,h]

theorem round_next (h : q++arrive i=a::rest) : round arrive (k+1) i q=
    ⟨a::(round arrive k (i+1) rest).taken,(round arrive k (i+1) rest).left,
      arrive i++(round arrive k (i+1) rest).came,(round arrive k (i+1) rest).dry⟩ := by
  rw [round,h]

end Round

end Bolina.DrainQueue
