import Bolina.Transport.Resolver

namespace Bolina.Token

open Transport (hexDigit)

def tokenBytes : Nat := 32
def tokenHexLen : Nat := 64

def hexByte (b : UInt8) : Bytes := [hexDigit (b>>>(4 : UInt8)),hexDigit (b&&&(0x0f : UInt8))]

/-- Lowercase, of one width. -/
def hex (token : FixedBytes 32) : FixedBytes 64 := fixed 64 (token.toList.flatMap hexByte)

/-- The differences of all the bytes are collected before the answer. -/
def verify (provided : Bytes) (expected : FixedBytes 64) : Bool :=
  if provided.length≠tokenHexLen then false
  else (List.zipWith (·^^^·) provided expected.toList).foldl (·|||·) 0==0

def hexVal (b : UInt8) : Option UInt8 :=
  if 0x30 ≤ b ∧ b ≤ 0x39 then some (b-0x30)
  else if 0x61 ≤ b ∧ b ≤ 0x66 then some (b-0x61+10)
  else if 0x41 ≤ b ∧ b ≤ 0x46 then some (b-0x41+10)
  else none

def hexVals : Bytes → Option Bytes
  | hi::lo::rest => do
    let h ← hexVal hi
    let l ← hexVal lo
    let t ← hexVals rest
    return ((h<<<(4 : UInt8))|||l)::t
  | _ => some []

/-- `data` is what the read of the file gives; absent, short and corrupt are one answer. -/
def load (data : Option Bytes) : Option (FixedBytes 32) := do
  let data ← data
  if data.length≠tokenHexLen then none else (hexVals data).map (fixed 32)

/-- How a save ends: the file does not open, or it is cut and `k` bytes are stored before
an error or a crash, or all is stored. -/
inductive SaveOutcome where
  | unopened
  | stopped (k : Nat)
  | saved

def SaveOutcome.ok : SaveOutcome → Bool
  | .saved => true
  | _ => false

/-- The file behind a save. -/
def save (file : Option Bytes) (token : FixedBytes 32) (outcome : SaveOutcome) : Option Bytes :=
  match outcome with
  | .unopened => file
  | .stopped k => some ((hex token).toList.take k)
  | .saved => some (hex token).toList

theorem or_fold (xs : Bytes) (a : UInt8) : xs.foldl (·|||·) a=0 ↔ a=0 ∧ ∀x∈xs,x=0 := by
  induction xs generalizing a with
  | nil => simp
  | cons x xs ih =>
    rw [List.foldl_cons,ih,UInt8.or_eq_zero_iff,List.forall_mem_cons,and_assoc]

theorem xor_zero (xs ys : Bytes) (h : xs.length=ys.length) :
    (∀x∈List.zipWith (·^^^·) xs ys,x=0) ↔ xs=ys := by
  induction xs generalizing ys with
  | nil =>
    cases ys with
    | nil => simp
    | cons y ys => cases h
  | cons x xs ih =>
    cases ys with
    | nil => cases h
    | cons y ys =>
      rw [List.zipWith_cons_cons,List.forall_mem_cons,UInt8.xor_eq_zero_iff,ih ys (Nat.succ.inj h),List.cons.injEq]

/-- The comparison accepts the token and nothing else. -/
theorem verify_iff (provided : Bytes) (expected : FixedBytes 64) :
    verify provided expected=true ↔ provided=expected.toList := by
  rw [verify]
  by_cases hl : provided.length=tokenHexLen
  · have hlen : provided.length=expected.toList.length := by
      rw [hl,List.Vector.toList_length]
      rfl
    rw [if_neg (not_not.mpr hl),beq_iff_eq,or_fold,xor_zero provided expected.toList hlen]
    exact ⟨fun h => h.2,fun h => ⟨rfl,h⟩⟩
  · rw [if_pos hl]
    constructor
    · intro h
      cases h
    · intro h
      rw [h,List.Vector.toList_length] at hl
      exact absurd rfl hl

theorem hexVal_byte (b : UInt8) :
    (hexVal (hexDigit (b>>>(4 : UInt8)))).bind (fun h => (hexVal (hexDigit (b&&&(0x0f : UInt8)))).map
      (fun l => (h<<<(4 : UInt8))|||l))=some b := by
  have hall : ∀n : Fin 256,(hexVal (hexDigit (UInt8.ofNat n>>>(4 : UInt8)))).bind (fun h =>
      (hexVal (hexDigit (UInt8.ofNat n&&&(0x0f : UInt8)))).map (fun l => (h<<<(4 : UInt8))|||l))=
        some (UInt8.ofNat n) := by decide +kernel
  have hb := hall ⟨b.toNat,b.toNat_lt⟩
  rwa [UInt8.ofNat_toNat] at hb

theorem hexVals_hex (bs : Bytes) : hexVals (bs.flatMap hexByte)=some bs := by
  induction bs with
  | nil => rfl
  | cons b bs ih =>
    have hb := hexVal_byte b
    rw [List.flatMap_cons,hexByte,List.cons_append,List.cons_append,List.nil_append,hexVals,ih]
    cases hh : hexVal (hexDigit (b>>>(4 : UInt8))) with
    | none =>
      rw [hh] at hb
      cases hb
    | some h =>
      cases hl : hexVal (hexDigit (b&&&(0x0f : UInt8))) with
      | none =>
        rw [hh,hl] at hb
        cases hb
      | some l =>
        rw [hh,hl] at hb
        have he : (h<<<(4 : UInt8))|||l=b := Option.some.inj hb
        rw [← he]
        rfl

theorem hex_toList (token : FixedBytes 32) : (hex token).toList=token.toList.flatMap hexByte := by
  apply toList_fixed
  have hl := token.toList_length
  simp [List.length_flatMap,hexByte]

theorem load_hex (token : FixedBytes 32) : load (some (hex token).toList)=some token := by
  have hl : (token.toList.flatMap hexByte).length=tokenHexLen := by
    rw [← hex_toList]
    exact List.Vector.toList_length _
  rw [hex_toList,load]
  simp only [Option.bind_eq_bind,Option.bind_some,if_neg (not_not.mpr hl),hexVals_hex,Option.map_some,fixed_toList]

/-- A file cut inside the token is no token. -/
theorem load_take (token : FixedBytes 32) (k : Nat) (hk : k < tokenHexLen) :
    load (some ((hex token).toList.take k))=none := by
  have hl : ((hex token).toList.take k).length≠tokenHexLen := by
    rw [List.length_take]
    omega
  rw [load]
  simp only [Option.bind_eq_bind,Option.bind_some,if_pos hl]

end Bolina.Token
