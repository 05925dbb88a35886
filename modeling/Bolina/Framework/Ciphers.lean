import Bolina.Framework.BigEndian

namespace Bolina.Ciphers

/-- The natural number a byte string denotes, least significant byte first. -/
def leNat : Bytes → Nat
  | [] => 0
  | b::bs => b.toNat+256*leNat bs

/-- The low `k` bytes of `n`, least significant byte first. -/
def leBytes : Nat → Nat → Bytes
  | 0,_ => []
  | k+1,n => UInt8.ofNat n::leBytes k (n/256)

def pad (n : Nat) (bs : Bytes) : Bytes := bs++List.replicate (n-bs.length) 0

/-- The bytes in blocks of `n`, the last one as short as it comes. -/
def blocks (n : Nat) (bs : Bytes) : List Bytes :=
  (List.range ((bs.length+n-1)/n)).map (fun i => (bs.drop (n*i)).take n)

def words (bs : Bytes) : List UInt32 := (blocks 4 bs).map (fun w => UInt32.ofNat (leNat w))

def rotl (x : UInt32) (n : UInt32) : UInt32 := (x<<<n)|||(x>>>(32-n))

def word (v : List UInt32) (i : Nat) : UInt32 := v.getD i 0

section Blake2s

def iv : List UInt32 :=
  [0x6A09E667,0xBB67AE85,0x3C6EF372,0xA54FF53A,0x510E527F,0x9B05688C,0x1F83D9AB,0x5BE0CD19]

/-- The order in which each round takes the words of the block. -/
def sigma : List (List Nat) := [
  [0,1,2,3,4,5,6,7,8,9,10,11,12,13,14,15],
  [14,10,4,8,9,15,13,6,1,12,0,2,11,7,5,3],
  [11,8,12,0,5,2,15,13,10,14,3,6,7,1,9,4],
  [7,9,3,1,13,12,11,14,2,6,5,10,4,0,15,8],
  [9,0,5,7,2,4,10,15,14,1,11,12,6,8,3,13],
  [2,12,6,10,0,11,8,3,4,13,7,5,15,14,1,9],
  [12,5,1,15,14,13,4,10,0,7,6,3,9,2,8,11],
  [13,11,7,14,12,1,3,9,5,0,15,4,8,6,2,10],
  [6,15,14,9,11,3,0,8,12,2,13,7,1,4,10,5],
  [10,2,8,4,7,6,1,5,15,11,9,14,3,12,13,0]]

/-- One mix of four words of the state with two words of the block. -/
def mix (v : List UInt32) (a b c d : Nat) (x y : UInt32) : List UInt32 :=
  let va := word v a+word v b+x
  let vd := rotl (word v d^^^va) 16
  let vc := word v c+vd
  let vb := rotl (word v b^^^vc) 20
  let va := va+vb+y
  let vd := rotl (vd^^^va) 24
  let vc := vc+vd
  let vb := rotl (vb^^^vc) 25
  (((v.set a va).set b vb).set c vc).set d vd

/-- The columns and the diagonals of the state, four words each. -/
def lanes : List (Nat × Nat × Nat × Nat) := [
  (0,4,8,12),(1,5,9,13),(2,6,10,14),(3,7,11,15),
  (0,5,10,15),(1,6,11,12),(2,7,8,13),(3,4,9,14)]

def round (m : List UInt32) (v : List UInt32) (s : List Nat) : List UInt32 :=
  lanes.zipIdx.foldl (fun v l => mix v l.1.1 l.1.2.1 l.1.2.2.1 l.1.2.2.2
    (word m (s.getD (2*l.2) 0)) (word m (s.getD (2*l.2+1) 0))) v

/-- `t` counts the bytes taken so far, the block included. -/
def compress (h : List UInt32) (block : Bytes) (t : Nat) (last : Bool) : List UInt32 :=
  let v := h++iv
  let v := v.set 12 (word v 12^^^UInt32.ofNat t)
  let v := v.set 13 (word v 13^^^UInt32.ofNat (t/2^32))
  let v := if last then v.set 14 (word v 14^^^0xFFFFFFFF) else v
  let v := sigma.foldl (round (words (pad 64 block))) v
  (List.range 8).map (fun i => word h i^^^word v i^^^word v (i+8))

/-- BLAKE2s with a digest of `n` bytes, keyed when the key is not empty. -/
def blake2s (n : Nat) (key msg : Bytes) : Bytes :=
  let data := (if key=[] then [] else pad 64 key)++msg
  let bs := if data=[] then [[]] else blocks 64 data
  let h := iv.set 0 (word iv 0^^^UInt32.ofNat (0x01010000+256*key.length+n))
  let h := bs.zipIdx.foldl (fun h b =>
    compress h b.1 (min data.length (64*(b.2+1))) (b.2+1==bs.length)) h
  (h.flatMap (fun w => leBytes 4 w.toNat)).take n

example : blake2s 32 [] [0x61,0x62,0x63]=
    BigEndian.beBytes 32 0x508c5e8c327c14e2e1a72ba34eeb452f37458b209ed63a294d999b4c86675982 := by decide +kernel

end Blake2s

section ChaCha20

def quarter (v : List UInt32) (l : Nat × Nat × Nat × Nat) : List UInt32 :=
  let va := word v l.1+word v l.2.1
  let vd := rotl (word v l.2.2.2^^^va) 16
  let vc := word v l.2.2.1+vd
  let vb := rotl (word v l.2.1^^^vc) 12
  let va := va+vb
  let vd := rotl (vd^^^va) 8
  let vc := vc+vd
  let vb := rotl (vb^^^vc) 7
  (((v.set l.1 va).set l.2.1 vb).set l.2.2.1 vc).set l.2.2.2 vd

/-- One block of the stream of ChaCha20. -/
def block (key nonce : Bytes) (counter : Nat) : Bytes :=
  let v := [0x61707865,0x3320646e,0x79622d32,0x6b206574]++words key++[UInt32.ofNat counter]++words nonce
  let w := (fun v => lanes.foldl quarter v)^[10] v
  (v.zipWith (· + ·) w).flatMap (fun x => leBytes 4 x.toNat)

/-- The stream from block 1 on: block 0 makes the key of the authenticator. -/
def stream (key nonce : Bytes) (i : Nat) : UInt8 := (block key nonce (1+i/64)).getD (i%64) 0

def xorStream (key nonce bs : Bytes) : Bytes := bs.mapIdx (fun i b => b^^^stream key nonce i)

end ChaCha20

def poly1305 (key msg : Bytes) : Bytes :=
  let r := leNat (key.take 16)&&&0x0ffffffc0ffffffc0ffffffc0fffffff
  let s := leNat (key.drop 16)
  let acc := (blocks 16 msg).foldl (fun acc b => (acc+leNat b+256^b.length)*r%(2^130-5)) 0
  leBytes 16 (acc+s)

def pad16 (bs : Bytes) : Bytes := pad (16*((bs.length+15)/16)) bs

def tag (key nonce ad ct : Bytes) : Bytes :=
  poly1305 ((block key nonce 0).take 32) (pad16 ad++pad16 ct++leBytes 8 ad.length++leBytes 8 ct.length)

/-- ChaCha20-Poly1305 with the tag behind the ciphertext. -/
def sealBytes (key nonce msg ad : Bytes) : Bytes :=
  let ct := xorStream key nonce msg
  ct++tag key nonce ad ct

def openBytes (key nonce bs ad : Bytes) : Option Bytes :=
  let ct := bs.take (bs.length-16)
  if bs.drop (bs.length-16)=tag key nonce ad ct then some (xorStream key nonce ct) else none

@[simp] theorem leBytes_length (k n : Nat) : (leBytes k n).length=k := by
  induction k generalizing n with
  | zero => rfl
  | succ k ih => rw [leBytes,List.length_cons,ih]

@[simp] theorem tag_length (key nonce ad ct : Bytes) : (tag key nonce ad ct).length=16 := leBytes_length 16 _

@[simp] theorem xorStream_length (key nonce bs : Bytes) : (xorStream key nonce bs).length=bs.length :=
  List.length_mapIdx

/-- Up to 64 bytes take one block of the stream. -/
theorem xorStream_block (key nonce bs : Bytes) (h : bs.length ≤ 64) :
    xorStream key nonce bs=bs.mapIdx (fun i b => b^^^(block key nonce 1).getD i 0) := by
  apply List.ext_getElem
  · simp
  · intro i h1 h2
    have hi : i < 64 := by
      rw [xorStream_length] at h1
      exact h1.trans_le h
    have hdiv : i/64=0 := Nat.div_eq_of_lt hi
    have hmod : i%64=i := Nat.mod_eq_of_lt hi
    simp only [xorStream,List.getElem_mapIdx,stream,hdiv,hmod,Nat.add_zero]

/-- The stream undoes itself. -/
@[simp] theorem xorStream_xorStream (key nonce bs : Bytes) : xorStream key nonce (xorStream key nonce bs)=bs := by
  apply List.ext_getElem
  · simp
  · intro i h1 h2
    simp only [xorStream,List.getElem_mapIdx]
    rw [UInt8.xor_assoc,UInt8.xor_self,UInt8.xor_zero]

theorem sealBytes_length (key nonce msg ad : Bytes) : (sealBytes key nonce msg ad).length=msg.length+16 := by
  simp [sealBytes]

/-- What is sealed opens under the same key, nonce and associated data. -/
theorem openBytes_sealBytes (key nonce msg ad : Bytes) :
    openBytes key nonce (sealBytes key nonce msg ad) ad=some msg := by
  have hl : (sealBytes key nonce msg ad).length-16=(xorStream key nonce msg).length := by
    rw [sealBytes_length,xorStream_length,Nat.add_sub_cancel]
  rw [openBytes,hl,sealBytes]
  simp only [List.take_left,List.drop_left,if_true,xorStream_xorStream]

end Bolina.Ciphers
