import Bolina.Framework.BigEndian

namespace Bolina.Utf8

/-- How many bytes follow a lead byte, and the range of the first of them. -/
def lead (b : UInt8) : Option (Nat × UInt8 × UInt8) :=
  if 0xc2 ≤ b ∧ b ≤ 0xdf then some (1,0x80,0xbf)
  else if b=0xe0 then some (2,0xa0,0xbf)
  else if b=0xed then some (2,0x80,0x9f)
  else if 0xe1 ≤ b ∧ b ≤ 0xef then some (2,0x80,0xbf)
  else if b=0xf0 then some (3,0x90,0xbf)
  else if 0xf1 ≤ b ∧ b ≤ 0xf3 then some (3,0x80,0xbf)
  else if b=0xf4 then some (3,0x80,0x8f)
  else none

/-- How many of the `n` bytes that should follow are there. -/
def followed (lo hi : UInt8) : Nat → Bytes → Nat
  | 0,_ => 0
  | _,[] => 0
  | n+1,b::bs => if lo ≤ b ∧ b ≤ hi then 1+followed 0x80 0xbf n bs else 0

def scalar (b : UInt8) (rest : Bytes) : Char :=
  let high := b.toNat%2^(6-rest.length)
  Char.ofNat (rest.foldl (fun n c => 64*n+c.toNat%64) high)

/-- The character at the front, or the longest ill-formed part, with its length. -/
def decodeOne (b : UInt8) (rest : Bytes) : Option Char × Nat :=
  if b < 0x80 then (some (Char.ofNat b.toNat),1)
  else
    match lead b with
    | none => (none,1)
    | some (n,lo,hi) =>
      let k := followed lo hi n rest
      if k=n then (some (scalar b (rest.take n)),n+1) else (none,k+1)

/-- The characters of a byte string, with a gap for each ill-formed part; `fuel` is its length. -/
def decodeLoop : Nat → Bytes → List (Option Char)
  | 0,_ => []
  | _,[] => []
  | fuel+1,b::rest => (decodeOne b rest).1::decodeLoop fuel (rest.drop ((decodeOne b rest).2-1))

def decode (bs : Bytes) : List (Option Char) := decodeLoop bs.length bs

/-- The text, where all of it is well formed. -/
def fromUtf8 (bs : Bytes) : Option (List Char) := (decode bs).mapM id

/-- The text with the replacement character in each gap. -/
def fromUtf8Lossy (bs : Bytes) : List Char := (decode bs).map (fun c => c.getD (Char.ofNat 0xfffd))

/-- The bytes of a text that is all ASCII. -/
def ascii (s : String) : Bytes := s.toList.map (fun c => UInt8.ofNat c.toNat)

/-- A byte below 0x80 is a character of its own. -/
theorem fromUtf8_cons (b : UInt8) (bs : Bytes) (h : b < 0x80) :
    fromUtf8 (b::bs)=(fromUtf8 bs).map (fun s => Char.ofNat b.toNat::s) := by
  have hone : decodeOne b bs=(some (Char.ofNat b.toNat),1) := by rw [decodeOne,if_pos h]
  have hdecode : decode (b::bs)=some (Char.ofNat b.toNat)::decode bs := by
    rw [decode,List.length_cons,decodeLoop,hone]
    rfl
  rw [fromUtf8,hdecode,List.mapM_cons,fromUtf8]
  cases (decode bs).mapM id <;> rfl

/-- Bytes below 0x80 are their characters. -/
theorem fromUtf8_ascii (bs : Bytes) (h : ∀b∈bs,b < 0x80) :
    fromUtf8 bs=some (bs.map (fun b => Char.ofNat b.toNat)) := by
  induction bs with
  | nil => rfl
  | cons b bs ih =>
    obtain ⟨hb,hbs⟩ := List.forall_mem_cons.mp h
    rw [fromUtf8_cons b bs hb,ih hbs]
    rfl

theorem ofNat_toNat (b : UInt8) (h : b < 0x80) : (Char.ofNat b.toNat).toNat=b.toNat := by
  have hlt : b.toNat < 0x80 := h
  have hvalid : b.toNat.isValidChar := .inl (by omega)
  rw [Char.ofNat,dif_pos hvalid]
  rfl

end Bolina.Utf8
