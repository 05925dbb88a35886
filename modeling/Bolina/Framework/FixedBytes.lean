import Bolina.Framework.BigEndian
import Mathlib.Data.Vector.Basic

namespace Bolina

abbrev FixedBytes (n : Nat) := List.Vector UInt8 n

/-- A zeroed array of `n` bytes with `bs` copied to its front. -/
def fixed (n : Nat) (bs : Bytes) : FixedBytes n :=
  ⟨(bs++List.replicate n 0).take n,by simp⟩

@[simp] theorem fixed_toList {n : Nat} (v : FixedBytes n) : fixed n v.toList=v := by
  apply Subtype.ext
  change (v.toList++List.replicate n 0).take n=v.toList
  rw [List.take_append_of_le_length (by simp),List.take_of_length_le (by simp)]

theorem toList_fixed {n : Nat} (bs : Bytes) (h : bs.length=n) : (fixed n bs).toList=bs :=
  List.take_left' h

end Bolina
