import Mathlib.Data.List.Basic
import Mathlib.Tactic.Ring
import Mathlib.Tactic.Positivity

namespace Bolina

abbrev Bytes := List UInt8

namespace BigEndian

/-- The natural number a byte string denotes, most significant byte first. -/
def beNat : Bytes → Nat
  | [] => 0
  | b::bs => b.toNat*256^bs.length+beNat bs

/-- The low `k` bytes of `n`, most significant byte first. -/
def beBytes : Nat → Nat → Bytes
  | 0,_ => []
  | k+1,n => UInt8.ofNat (n/256^k)::beBytes k n

@[simp] theorem beBytes_length (k n : Nat) : (beBytes k n).length=k := by
  induction k with
  | zero => rfl
  | succ k ih => simp [beBytes,ih]

theorem beNat_beBytes (k n : Nat) : beNat (beBytes k n)=n%256^k := by
  induction k with
  | zero => simp [beBytes,beNat,Nat.mod_one]
  | succ k ih =>
    rw [beBytes,beNat,beBytes_length,ih,Nat.mod_pow_succ,UInt8.toNat_ofNat']
    ring

theorem beNat_lt (bs : Bytes) : beNat bs < 256^bs.length := by
  induction bs with
  | nil => exact Nat.one_pos
  | cons b bs ih =>
    have hb : b.toNat+1 ≤ 256 := b.toNat_lt
    have hm := Nat.mul_le_mul_right (256^bs.length) hb
    rw [Nat.add_mul,Nat.one_mul] at hm
    rw [beNat,List.length_cons,Nat.pow_succ,Nat.mul_comm _ 256]
    omega

/-- Only the low bytes of a number are written. -/
theorem beBytes_congr (k m n : Nat) (h : m%256^k=n%256^k) : beBytes k m=beBytes k n := by
  induction k with
  | zero => rfl
  | succ k ih =>
    have hhead : m/256^k%256=n/256^k%256 := by
      rw [← Nat.mod_mul_right_div_self,← Nat.mod_mul_right_div_self,← Nat.pow_succ,h]
    have hdvd : 256^k ∣ 256^(k+1) := Nat.pow_dvd_pow 256 (Nat.le_succ k)
    have htail : m%256^k=n%256^k := by
      rw [← Nat.mod_mod_of_dvd m hdvd,h,Nat.mod_mod_of_dvd n hdvd]
    rw [beBytes,beBytes,ih htail]
    congr 1
    apply UInt8.toNat.inj
    rw [UInt8.toNat_ofNat',UInt8.toNat_ofNat']
    exact hhead

theorem beBytes_beNat (bs : Bytes) : beBytes bs.length (beNat bs)=bs := by
  induction bs with
  | nil => rfl
  | cons b bs ih =>
    have hdiv : (b.toNat*256^bs.length+beNat bs)/256^bs.length=b.toNat := by
      rw [Nat.mul_comm,Nat.mul_add_div (by positivity),Nat.div_eq_of_lt (beNat_lt bs),Nat.add_zero]
    have hlow := beBytes_congr bs.length (b.toNat*256^bs.length+beNat bs) (beNat bs)
      (by rw [Nat.mul_comm,Nat.mul_add_mod])
    rw [List.length_cons,beBytes,beNat,hdiv,hlow,ih,UInt8.ofNat_toNat]

/-- Eight bytes on the wire carry exactly a 64-bit word. -/
def be64 (bs : Bytes) : UInt64 := UInt64.ofNat (beNat bs)

def put64 (v : UInt64) : Bytes := beBytes 8 v.toNat

@[simp] theorem put64_length (v : UInt64) : (put64 v).length=8 := beBytes_length 8 _

@[simp] theorem be64_put64 (v : UInt64) : be64 (put64 v)=v := by
  apply UInt64.toNat.inj
  rw [be64,put64,beNat_beBytes,UInt64.toNat_ofNat']
  have hv := v.toNat_lt
  omega

theorem beBytes_one (b : UInt8) : beBytes 1 b.toNat=[b] := by
  have h := beBytes_beNat [b]
  simpa [beNat] using h

theorem put64_be64 (bs : Bytes) (h : bs.length=8) : put64 (be64 bs)=bs := by
  have hlt := beNat_lt bs
  rw [h] at hlt
  rw [put64,be64,UInt64.toNat_ofNat',Nat.mod_eq_of_lt (by omega),← h,beBytes_beNat]

/-- Four bytes on the wire carry exactly a 32-bit word. -/
def be32 (bs : Bytes) : UInt32 := UInt32.ofNat (beNat bs)

def put32 (v : UInt32) : Bytes := beBytes 4 v.toNat

@[simp] theorem put32_length (v : UInt32) : (put32 v).length=4 := beBytes_length 4 _

@[simp] theorem be32_put32 (v : UInt32) : be32 (put32 v)=v := by
  apply UInt32.toNat.inj
  rw [be32,put32,beNat_beBytes,UInt32.toNat_ofNat']
  have hv := v.toNat_lt
  omega

theorem put32_be32 (bs : Bytes) (h : bs.length=4) : put32 (be32 bs)=bs := by
  have hlt := beNat_lt bs
  rw [h] at hlt
  rw [put32,be32,UInt32.toNat_ofNat',Nat.mod_eq_of_lt (by omega),← h,beBytes_beNat]

/-- The field of `n` bytes at an offset. -/
def slice (bs : Bytes) (off n : Nat) : Bytes := (bs.drop off).take n

theorem slice_mid (front field back : Bytes) : slice (front++(field++back)) front.length field.length=field := by
  rw [slice,List.drop_left,List.take_left]

end BigEndian
end Bolina
