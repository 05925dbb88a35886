import Mathlib.Data.List.Basic

/-! Texts cut at byte offsets of their UTF-8 form; `none` is an offset inside a character. -/

namespace Bolina.ByteOffsets

/-- The length in bytes. -/
def size : List Char → Nat
  | [] => 0
  | c::s => c.utf8Size+size s

/-- The text from an offset on. -/
def sliceFrom : List Char → Nat → Option (List Char)
  | s,0 => some s
  | [],_+1 => none
  | c::s,i+1 => if c.utf8Size ≤ i+1 then sliceFrom s (i+1-c.utf8Size) else none

/-- The text up to an offset. -/
def sliceTo : List Char → Nat → Option (List Char)
  | _,0 => some []
  | [],_+1 => none
  | c::s,i+1 => if c.utf8Size ≤ i+1 then (sliceTo s (i+1-c.utf8Size)).map (c::·) else none

def slice (s : List Char) (lo hi : Nat) : Option (List Char) :=
  if lo ≤ hi then (sliceFrom s lo).bind (fun rest => sliceTo rest (hi-lo)) else none

/-- The offset of the first match. -/
def find (needle : List Char) : List Char → Option Nat
  | [] => if needle=[] then some 0 else none
  | c::s => if needle.isPrefixOf (c::s) then some 0 else (find needle s).map (fun i => c.utf8Size+i)

section Sizes

@[simp] theorem size_nil : size []=0 := rfl

@[simp] theorem size_cons (c : Char) (s : List Char) : size (c::s)=c.utf8Size+size s := rfl

@[simp] theorem size_append (s t : List Char) : size (s++t)=size s+size t := by
  induction s with
  | nil => simp
  | cons c s ih => simp [ih,Nat.add_assoc]

theorem size_eq_utf8 (s : List Char) : size s=(s.flatMap String.utf8EncodeChar).length := by
  induction s with
  | nil => rfl
  | cons c s ih => rw [size_cons,List.flatMap_cons,List.length_append,String.length_utf8EncodeChar,ih]

/-- Texts of one-byte characters. -/
theorem size_eq_length {s : List Char} (h : ∀c∈s,c.utf8Size=1) : size s=s.length := by
  induction s with
  | nil => rfl
  | cons c s ih =>
    obtain ⟨hc,hs⟩ := List.forall_mem_cons.mp h
    rw [size_cons,hc,ih hs,List.length_cons,Nat.add_comm]

end Sizes

section Slices

theorem sliceFrom_append (s t : List Char) : sliceFrom (s++t) (size s)=some t := by
  induction s with
  | nil => rw [size_nil,List.nil_append,sliceFrom]
  | cons c s ih =>
    have hpos := c.utf8Size_pos
    obtain ⟨i,hi⟩ : ∃i,size (c::s)=i+1 := ⟨size (c::s)-1,by rw [size_cons]; omega⟩
    have hrest : i+1-c.utf8Size=size s := by rw [← hi,size_cons,Nat.add_sub_cancel_left]
    have hle : c.utf8Size ≤ i+1 := by rw [← hi,size_cons]; omega
    rw [hi,List.cons_append,sliceFrom,if_pos hle,hrest,ih]

theorem sliceTo_append (s t : List Char) : sliceTo (s++t) (size s)=some s := by
  induction s with
  | nil => rw [size_nil,List.nil_append,sliceTo]
  | cons c s ih =>
    have hpos := c.utf8Size_pos
    obtain ⟨i,hi⟩ : ∃i,size (c::s)=i+1 := ⟨size (c::s)-1,by rw [size_cons]; omega⟩
    have hrest : i+1-c.utf8Size=size s := by rw [← hi,size_cons,Nat.add_sub_cancel_left]
    have hle : c.utf8Size ≤ i+1 := by rw [← hi,size_cons]; omega
    rw [hi,List.cons_append,sliceTo,if_pos hle,hrest,ih]
    rfl

theorem slice_append (s t u : List Char) : slice (s++(t++u)) (size s) (size s+size t)=some t := by
  rw [slice,if_pos (Nat.le_add_right _ _),sliceFrom_append,Option.bind_some,Nat.add_sub_cancel_left,sliceTo_append]

end Slices

section Search

/-- The first place of a character. -/
theorem find_char (c : Char) (s : List Char) :
    find [c] s=if c∈s then some (size (s.takeWhile (fun d => d≠c))) else none := by
  induction s with
  | nil => rfl
  | cons d s ih =>
    rw [find,ih]
    by_cases hd : d=c
    · subst hd
      rw [if_pos (by simp),if_pos List.mem_cons_self,List.takeWhile_cons_of_neg (by simp)]
      rfl
    · have hne : ¬[c].isPrefixOf (d::s)=true := by simp [Ne.symm hd]
      rw [if_neg hne,List.takeWhile_cons_of_pos (by simp [hd])]
      by_cases hin : c∈s
      · rw [if_pos hin,if_pos (List.mem_cons_of_mem d hin)]
        rfl
      · have hnot : c∉d::s := fun hmem => (List.mem_cons.mp hmem).elim (fun he => hd he.symm) hin
        rw [if_neg hin,if_neg hnot]
        rfl

end Search

end Bolina.ByteOffsets
