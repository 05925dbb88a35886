import Bolina.Framework.FixedBytes
import Bolina.Framework.Panic
import Bolina.Transport.NoiseAgreement

namespace Bolina.Checked

open BigEndian Panic Transport Codec
open Noise (Suite Mac Error KeyPair SymmetricState Responder InitiationInfo HandshakeResult dh mac1Key protocolName
  dhLen tagLen msg1Size msg2Size msg1BeforeMac1 msg2BeforeMac1 off1SenderIndex off1Ephemeral off1EncStatic
  off1EncTimestamp off1Mac1 off2SenderIndex off2ReceiverIndex off2Ephemeral off2EncNothing off2Mac1)

abbrev macBytes : Nat := 16
def off2Mac2 : Nat := 76

def zeros (n : Nat) : Bytes := List.replicate n 0

/-- A zeroed array of `n` bytes with a slice copied over it. -/
def copyArray (n : Nat) (src : Bytes) : Option (FixedBytes n) := do exact (← copy (zeros n) src) n

/-- The field of `n` bytes at an offset of a message, as an array. -/
def field (msg : Bytes) (off n : Nat) : Option (FixedBytes n) := do exact (← range msg off (off+n)) n

def transportNonce (counter : UInt64) : Option Bytes := copyTo (zeros 12) (put64 counter) 4 12

/-- `pad[i] ^= k[i]` for every byte of the block. -/
def xorPad (pad k : Bytes) : Option Bytes :=
  (List.range 64).mapM (fun i => do return (← index pad i)^^^(← index k i))

section Suite

variable (S : Suite)

/-- The key in its block of 64 bytes; a longer one is hashed. -/
def hmacBlock (key : Bytes) : Option Bytes :=
  if 64 < key.length then copyTo (zeros 64) (S.blake2s key).toList 0 32
  else copyTo (zeros 64) key 0 key.length

def hmacBlake2s (key data : Bytes) : Option Key := do
  let k ← hmacBlock S key
  let ipad ← xorPad (List.replicate 64 0x36) k
  let opad ← xorPad (List.replicate 64 0x5c) k
  return S.blake2s (opad++(S.blake2s (ipad++data)).toList)

def hkdf2 (ck : Key) (ikm : Bytes) : Option (Key × Key) := do
  let tempKey ← hmacBlake2s S ck.toList ikm
  let o1 ← hmacBlake2s S tempKey.toList [1]
  let buf ← copyTo (zeros 33) o1.toList 0 32
  let buf ← setAt buf 32 2
  let o2 ← hmacBlake2s S tempKey.toList buf
  return (o1,o2)

def computeMac1 (responderSigPubkey : Key) (msgPreceding : Bytes) : Option Mac :=
  copyArray macBytes (S.blake2sMac (mac1Key S responderSigPubkey) msgPreceding).toList

def verifyMac1 (responderSigPubkey : Key) (msgPreceding : Bytes) (received : Mac) : Option Bool := do
  return (← computeMac1 S responderSigPubkey msgPreceding)==received

def symInit : Option SymmetricState := do
  let h ← copyArray 32 (S.blake2s protocolName).toList
  return ⟨h,h,zeroKey,0,false⟩

def mixHash (s : SymmetricState) (data : Bytes) : Option SymmetricState := do
  let h ← copyArray 32 (S.blake2s (s.h.toList++data)).toList
  return { s with h }

def mixKey (s : SymmetricState) (ikm : Key) : Option SymmetricState := do
  let (ck,k) ← hkdf2 S s.ck ikm.toList
  return { s with ck,k,n := 0,hasKey := true }

/-- `out` is the buffer the ciphertext and its tag are written to. -/
def encryptAndHash (s : SymmetricState) (out pt : Bytes) : Option (Bytes × SymmetricState) := do
  if s.hasKey then
    let (ct,tagOut) ← splitAt out pt.length
    let ct ← copy ct pt
    let nonce ← exact (← transportNonce s.n) 12
    let (ct,tag) := S.encryptInPlace s.k nonce.toList s.h.toList ct
    let tagOut ← copy tagOut tag.toList
    let n ← add64 s.n 1
    let out := ct++tagOut
    let mixed ← range out 0 (← add pt.length tagLen)
    return (out,← mixHash S { s with n } mixed)
  else
    let out ← copyTo out pt 0 pt.length
    let mixed ← range out 0 pt.length
    return (out,← mixHash S s mixed)

/-- `out` is the buffer the plaintext is written to. -/
def decryptAndHash (s : SymmetricState) (out ct : Bytes) : Option (Except Error Bytes × SymmetricState) := do
  if s.hasKey then
    let ptLen ← sub ct.length tagLen
    let (body,tag) ← splitAt ct ptLen
    let nonce ← exact (← transportNonce s.n) 12
    let tag ← exact tag 16
    match S.decryptInPlace s.k nonce.toList s.h.toList body tag with
    | none => return (.error .DecryptFailed,s)
    | some buf =>
      let out ← copyTo out buf 0 ptLen
      let n ← add64 s.n 1
      return (.ok out,← mixHash S { s with n } ct)
  else
    let out ← copyTo out ct 0 ct.length
    return (.ok out,← mixHash S s ct)

/-- The same with its buffer, which a failed tag leaves as it was. -/
def decryptAndHashInto (s : SymmetricState) (out ct : Bytes) : Option (Except Error Unit × Bytes × SymmetricState) := do
  if s.hasKey then
    let ptLen ← sub ct.length tagLen
    let (body,tag) ← splitAt ct ptLen
    let nonce ← exact (← transportNonce s.n) 12
    let tag ← exact tag 16
    match S.decryptInPlace s.k nonce.toList s.h.toList body tag with
    | none => return (.error .DecryptFailed,out,s)
    | some buf =>
      let out ← copyTo out buf 0 ptLen
      let n ← add64 s.n 1
      return (.ok (),out,← mixHash S { s with n } ct)
  else
    let out ← copyTo out ct 0 ct.length
    return (.ok (),out,← mixHash S s ct)

def split (s : SymmetricState) : Option (Key × Key) := hkdf2 S s.ck []

def newResponder (staticKp : KeyPair) : Option Responder := do
  let sym ← symInit S
  let sym ← mixHash S sym staticKp.pub.toList
  return ⟨staticKp,KeyPair.fromSecret S zeroKey,zeroKey,zeroKey,sym⟩

def readInitiation (r : Responder) (msg1 : Bytes) (ownSigPubkey : Key) :
    Option (Except Error InitiationInfo × Responder) := do
  let m1In ← field msg1 off1Mac1 macBytes
  if (← verifyMac1 S ownSigPubkey (← range msg1 0 msg1BeforeMac1) m1In)=false then return (.error .Mac1Failed,r)
  else
    let re ← field msg1 off1Ephemeral 32
    let sym ← mixHash S r.sym re.toList
    match dh S r.staticKp.secret re with
    | .error e => return (.error e,{ r with re,sym })
    | .ok es =>
      let sym ← mixKey S sym es
      match ← decryptAndHash S sym (zeros dhLen) (← range msg1 off1EncStatic (off1EncStatic+(dhLen+tagLen))) with
      | (.error e,sym) => return (.error e,{ r with re,sym })
      | (.ok static,sym) =>
        let remoteStaticPub ← exact static 32
        match dh S r.staticKp.secret remoteStaticPub with
        | .error e => return (.error e,{ r with re,remoteStaticPub,sym })
        | .ok ss =>
          let sym ← mixKey S sym ss
          match ← decryptAndHash S sym (zeros 8) (← range msg1 off1EncTimestamp (off1EncTimestamp+(8+tagLen))) with
          | (.error e,sym) => return (.error e,{ r with re,remoteStaticPub,sym })
          | (.ok ts,sym) =>
            let ts ← exact ts 8
            let index ← field msg1 off1SenderIndex 4
            return (.ok ⟨be32 index.toList,remoteStaticPub,be64 ts.toList⟩,{ r with re,remoteStaticPub,sym })

/-- The writes behind one another into the buffer of the second message, up to its payload. -/
def writeFront (senderIndex receiverIndex : UInt32) (ephemeral : Key) (out : Bytes) : Option Bytes := do
  let out ← setAt out 0 2
  let out ← copyTo out (zeros 3) 1 off2SenderIndex
  let out ← copyTo out (put32 senderIndex) off2SenderIndex (off2SenderIndex+4)
  let out ← copyTo out (put32 receiverIndex) off2ReceiverIndex (off2ReceiverIndex+4)
  copyTo out ephemeral.toList off2Ephemeral (off2Ephemeral+dhLen)

/-- The writes behind the front: the payload, the mac over everything so far, the cookie. -/
def writeBack (nothing : Bytes) (ownSigPubkey : Key) (mac2Cookie : Mac) (out : Bytes) : Option Bytes := do
  let out ← copyTo out nothing off2EncNothing (off2EncNothing+tagLen)
  let m1 ← computeMac1 S ownSigPubkey (← range out 0 msg2BeforeMac1)
  let out ← copyTo out m1.toList off2Mac1 (off2Mac1+macBytes)
  copyTo out mac2Cookie.toList off2Mac2 (off2Mac2+macBytes)

def writeResponse (r : Responder) (ephSecret : Key) (senderIndex receiverIndex : UInt32) (ownSigPubkey : Key)
    (mac2Cookie : Mac) : Option (Except Error Bytes × Responder) := do
  let ephKp := KeyPair.fromSecret S ephSecret
  let out ← writeFront senderIndex receiverIndex ephKp.pub (zeros msg2Size)
  let sym ← mixHash S r.sym ephKp.pub.toList
  match dh S ephKp.secret r.re with
  | .error e => return (.error e,{ r with ephKp,sym })
  | .ok ee =>
    let sym ← mixKey S sym ee
    match dh S ephKp.secret r.remoteStaticPub with
    | .error e => return (.error e,{ r with ephKp,sym })
    | .ok se =>
      let sym ← mixKey S sym se
      let (nothing,sym) ← encryptAndHash S sym (zeros tagLen) []
      let out ← writeBack S nothing ownSigPubkey mac2Cookie out
      return (.ok out,{ r with ephKp,sym })

def finalize (r : Responder) : Option HandshakeResult := do
  let (c1,c2) ← split S r.sym
  return ⟨c2,c1,r.sym.h⟩

end Suite

/-- Ciphers that work in place leave a buffer of the length they get. -/
structure InPlace (S : Suite) : Prop where
  encrypts : ∀k n ad pt,(S.encryptInPlace k n ad pt).1.length=pt.length
  decrypts : ∀k n ad ct tag pt,S.decryptInPlace k n ad ct tag=some pt → pt.length=ct.length

section Copies

@[simp] theorem zeros_length (n : Nat) : (zeros n).length=n := List.length_replicate

@[simp] theorem zeros_drop (m n : Nat) : (zeros m).drop n=zeros (m-n) := List.drop_replicate

theorem exact_fixed {n : Nat} {bs : Bytes} (h : bs.length=n) : exact bs n=some (fixed n bs) := by
  have hv : (⟨bs,h⟩ : FixedBytes n)=fixed n bs := Subtype.ext (toList_fixed bs h).symm
  rw [exact_eq h,hv]

theorem copyArray_toList {n : Nat} (v : FixedBytes n) : copyArray n v.toList=some v := by
  rw [copyArray,copy_eq (by simp)]
  simp only [Option.bind_eq_bind,Option.bind_some]
  rw [exact_fixed v.toList_length,fixed_toList]

theorem transportNonce_eq (counter : UInt64) : transportNonce counter=some (Transport.transportNonce counter) := by
  have h := @copyTo_next _ (put64 counter) (zeros 4) (zeros 8) 4 12 rfl (by simp) (by simp)
  have hz : zeros 12=zeros 4++zeros 8 := rfl
  rw [transportNonce,hz,h,put64_length,zeros_drop]
  exact congrArg some (List.append_nil _)

theorem nonce_exact (counter : UInt64) :
    exact (Transport.transportNonce counter) 12=some (fixed 12 (Transport.transportNonce counter)) :=
  exact_fixed (by simp [Transport.transportNonce])

theorem nonce_toList (counter : UInt64) :
    (fixed 12 (Transport.transportNonce counter)).toList=Transport.transportNonce counter :=
  toList_fixed _ (by simp [Transport.transportNonce])

theorem xorPad_eq (p : UInt8) (k : Bytes) (h : k.length=64) :
    xorPad (List.replicate 64 p) k=some (k.map (fun b => b^^^p)) := by
  have hstep : ∀i∈List.range 64,(do return (← index (List.replicate 64 p) i)^^^(← index k i))=
      some (k.getD i 0^^^p) := by
    intro i hi
    have hi : i < 64 := List.mem_range.mp hi
    have hk : i < k.length := by
      rw [h]
      exact hi
    rw [index_eq (by rw [List.length_replicate]; exact hi),index_eq hk,List.getElem_replicate,List.getD_eq_getElem?_getD,List.getElem?_eq_getElem hk]
    exact congrArg some (UInt8.xor_comm _ _)
  rw [xorPad,mapM_some _ _ _ hstep]
  congr 1
  apply List.ext_getElem
  · simp [h]
  · intro i h1 h2
    have hi : i < k.length := by simpa using h2
    simp [hi]

end Copies

section Equations

variable {S : Suite}

/-- A copy to the front of a zeroed array. -/
theorem copyTo_fixed {n : Nat} {src : Bytes} (hs : src.length ≤ n) :
    copyTo (zeros n) src 0 src.length=some (fixed n src).toList := by
  have h := @copyTo_next _ src [] (zeros n) 0 src.length rfl (Nat.zero_add _).symm (by rw [zeros_length]; exact hs)
  rw [List.nil_append] at h
  have hf : (fixed n src).toList=src++zeros (n-src.length) := by
    show (src++zeros n).take n=_
    rw [List.take_append,List.take_of_length_le hs,zeros,List.take_replicate,Nat.min_eq_left (Nat.sub_le _ _)]
    rfl
  rw [h,zeros_drop,hf,List.nil_append]

theorem hmacBlake2s_eq (key data : Bytes) : hmacBlake2s S key data=some (Noise.hmacBlake2s S key data) := by
  have hk : hmacBlock S key=
      some (fixed 64 (if 64 < key.length then (S.blake2s key).toList else key)).toList := by
    rw [hmacBlock]
    split
    · have h := @copyTo_fixed 64 (S.blake2s key).toList (by rw [List.Vector.toList_length]; decide)
      rw [List.Vector.toList_length] at h
      exact h
    · exact copyTo_fixed (by omega)
  rw [hmacBlake2s,hk]
  simp only [Option.bind_eq_bind,Option.bind_some,xorPad_eq _ _ (List.Vector.toList_length _)]
  rfl

theorem hkdf2_eq (ck : Key) (ikm : Bytes) : hkdf2 S ck ikm=some (Noise.hkdf2 S ck ikm) := by
  have hbuf : ∀o : Key,copyTo (zeros 33) o.toList 0 32=some (o.toList++zeros 1) := by
    intro o
    have h := @copyTo_next _ o.toList [] (zeros 33) 0 32 rfl (by simp) (by simp)
    rw [List.nil_append,zeros_drop,List.Vector.toList_length,List.nil_append] at h
    exact h
  have hset : ∀o : Key,setAt (o.toList++zeros 1) 32 2=some (o.toList++[2]) := by
    intro o
    have hl : 32 < (o.toList++zeros 1).length := by simp
    rw [setAt,if_pos hl,List.set_append_right _ _ (by simp)]
    simp [zeros]
  simp only [hkdf2,hmacBlake2s_eq,hbuf,hset,Option.bind_eq_bind,Option.bind_some]
  rfl

theorem computeMac1_eq (sig : Key) (msg : Bytes) : computeMac1 S sig msg=some (Noise.computeMac1 S sig msg) :=
  copyArray_toList _

theorem verifyMac1_eq (sig : Key) (msg : Bytes) (received : Mac) :
    verifyMac1 S sig msg received=some (Noise.verifyMac1 S sig msg received) := by
  rw [verifyMac1,computeMac1_eq]
  rfl

theorem mixHash_eq (s : SymmetricState) (data : Bytes) : mixHash S s data=some (s.mixHash S data) := by
  rw [mixHash,copyArray_toList]
  rfl

theorem mixKey_eq (s : SymmetricState) (ikm : Key) : mixKey S s ikm=some (s.mixKey S ikm) := by
  rw [mixKey,hkdf2_eq]
  rfl

theorem newResponder_eq (kp : KeyPair) : newResponder S kp=some (Responder.new S kp) := by
  simp only [newResponder,symInit,copyArray_toList,mixHash_eq,Option.bind_eq_bind,Option.bind_some,pure]
  rfl

theorem finalize_eq (r : Responder) : finalize S r=some (r.finalize S) := by
  rw [finalize,split,hkdf2_eq]
  rfl

/-- Up to the addition to the nonce an encryption stays in its buffer. -/
theorem encryptAndHash_sealed (s : SymmetricState) (out pt : Bytes) (hk : s.hasKey=true)
    (hout : out.length=pt.length+tagLen) : encryptAndHash S s out pt=do
      let (ct,tag) := S.encryptInPlace s.k (Transport.transportNonce s.n) s.h.toList pt
      let n ← add64 s.n 1
      let mixed ← range (ct++tag.toList) 0 (← add pt.length tagLen)
      return (ct++tag.toList,SymmetricState.mixHash S { s with n } mixed) := by
  rw [encryptAndHash,if_pos hk,splitAt_eq (by omega)]
  simp only [Option.bind_eq_bind,Option.bind_some]
  rw [copy_eq (by rw [List.length_take]; omega),transportNonce_eq]
  simp only [Option.bind_some]
  rw [nonce_exact]
  simp only [Option.bind_some,nonce_toList]
  rw [copy_eq (by rw [List.length_drop,List.Vector.toList_length,hout,tagLen]; omega)]
  simp only [Option.bind_some,mixHash_eq]

/-- Below the last nonce nothing overflows, and the buffer takes the message and its tag. -/
theorem encryptAndHash_eq (s : SymmetricState) (out pt : Bytes) (hk : s.hasKey=true) (hn : s.n.toNat+1 < wordLimit)
    (hlen : (S.encryptInPlace s.k (Transport.transportNonce s.n) s.h.toList pt).1.length=pt.length)
    (hout : out.length=pt.length+tagLen) (hpt : pt.length+tagLen < wordLimit) :
    encryptAndHash S s out pt=some (s.encryptAndHash S pt) := by
  have hnext : add64 s.n 1=some (s.n+1) := if_pos hn
  rw [encryptAndHash_sealed s out pt hk hout,Noise.SymmetricState.encryptAndHash,if_pos hk]
  simp only [Option.bind_eq_bind,hnext,add_eq hpt,Option.bind_some]
  rw [range_front (by simp [hlen,tagLen])]
  simp only [Option.bind_some]
  rw [List.take_of_length_le (by simp [hlen,tagLen])]
  rfl

/-- At the last nonce the addition overflows, with the ciphertext in the buffer. -/
theorem encryptAndHash_exhausted (s : SymmetricState) (out pt : Bytes) (hk : s.hasKey=true)
    (hn : wordLimit ≤ s.n.toNat+1) (hout : out.length=pt.length+tagLen) : encryptAndHash S s out pt=none := by
  have hnext : add64 s.n 1=none := if_neg (Nat.not_lt.mpr hn)
  rw [encryptAndHash_sealed s out pt hk hout,hnext]
  rfl

section Buffer

variable {s s' : SymmetricState} {out ct pt : Bytes} {e : Error}

/-- Two programs with one first step differ by a map where they do so behind it. -/
theorem bind_map {α β γ : Type} {k : β → γ} {f : α → Option γ} {g : α → Option β} (x : Option α)
    (h : ∀a,f a=(g a).map k) : x.bind f=(x.bind g).map k := by
  cases x with
  | none => rfl
  | some a => exact h a

theorem decryptAndHash_into : decryptAndHash S s out ct=
    (decryptAndHashInto S s out ct).map (fun r => (r.1.map (fun _ => r.2.1),r.2.2)) := by
  rw [decryptAndHash,decryptAndHashInto]
  by_cases hk : s.hasKey=true
  · rw [if_pos hk,if_pos hk]
    refine bind_map _ (fun ptLen => bind_map _ (fun cut => bind_map _ (fun bs => bind_map _ (fun nonce =>
      bind_map _ (fun tag => ?_)))))
    cases S.decryptInPlace s.k nonce.toList s.h.toList cut.1 tag with
    | none => rfl
    | some buf => exact bind_map _ (fun out => bind_map _ (fun n => bind_map _ (fun s' => rfl)))
  · rw [if_neg hk,if_neg hk]
    exact bind_map _ (fun out => bind_map _ (fun s' => rfl))

/-- Up to its tag a ciphertext is read alike, whatever the buffer. -/
theorem decryptAndHashInto_read (hk : s.hasKey=true) (hct : tagLen ≤ ct.length) : decryptAndHashInto S s out ct=
    match S.decryptInPlace s.k (Transport.transportNonce s.n) s.h.toList (ct.take (ct.length-tagLen))
      (fixed 16 (ct.drop (ct.length-tagLen))) with
    | none => some (.error .DecryptFailed,out,s)
    | some buf => do
      let out ← copyTo out buf 0 (ct.length-tagLen)
      let n ← add64 s.n 1
      return (.ok (),out,SymmetricState.mixHash S { s with n } ct) := by
  have htag : (ct.drop (ct.length-tagLen)).length=16 := by
    rw [List.length_drop,tagLen]
    rw [tagLen] at hct
    omega
  rw [decryptAndHashInto,if_pos hk,sub_eq hct]
  simp only [Option.bind_eq_bind,Option.bind_some]
  rw [splitAt_eq (Nat.sub_le _ _),transportNonce_eq]
  simp only [Option.bind_some]
  rw [nonce_exact]
  simp only [Option.bind_some,nonce_toList]
  rw [exact_fixed htag]
  simp only [Option.bind_some,mixHash_eq]
  rfl

theorem decryptAndHash_keyed (hk : s.hasKey=true) : s.decryptAndHash S ct=
    match S.decryptInPlace s.k (Transport.transportNonce s.n) s.h.toList (ct.take (ct.length-tagLen))
      (fixed 16 (ct.drop (ct.length-tagLen))) with
    | none => (.error .DecryptFailed,s)
    | some buf => (.ok buf,SymmetricState.mixHash S { s with n := s.n+1 } ct) := by
  rw [Noise.SymmetricState.decryptAndHash]
  exact if_pos hk

theorem decryptAndHashInto_refused (hk : s.hasKey=true) (hct : tagLen ≤ ct.length)
    (h : (s.decryptAndHash S ct).1=.error e) : decryptAndHashInto S s out ct=some (.error e,out,s) := by
  rw [decryptAndHash_keyed hk] at h
  rw [decryptAndHashInto_read hk hct]
  cases hd : S.decryptInPlace s.k (Transport.transportNonce s.n) s.h.toList (ct.take (ct.length-tagLen))
      (fixed 16 (ct.drop (ct.length-tagLen))) with
  | none =>
    rw [hd] at h
    cases h
    rfl
  | some buf =>
    rw [hd] at h
    cases h

/-- The plaintext is written to the front of the buffer. -/
theorem decryptAndHashInto_opened (hk : s.hasKey=true) (hn : s.n.toNat+1 < wordLimit)
    (hct : pt.length+tagLen=ct.length) (hout : pt.length ≤ out.length) (h : s.decryptAndHash S ct=(.ok pt,s')) :
    decryptAndHashInto S s out ct=some (.ok (),pt++out.drop pt.length,s') := by
  have hnext : add64 s.n 1=some (s.n+1) := if_pos hn
  have hlen : ct.length-tagLen=pt.length := by omega
  have hcopy : copyTo out pt 0 pt.length=some (pt++out.drop pt.length) :=
    copyTo_next [] out rfl (Nat.zero_add _).symm hout
  rw [decryptAndHash_keyed hk] at h
  rw [decryptAndHashInto_read hk (by omega)]
  cases hd : S.decryptInPlace s.k (Transport.transportNonce s.n) s.h.toList (ct.take (ct.length-tagLen))
      (fixed 16 (ct.drop (ct.length-tagLen))) with
  | none =>
    rw [hd] at h
    cases h
  | some buf =>
    rw [hd] at h
    cases h
    simp only [hlen,hcopy,hnext,Option.bind_eq_bind,Option.bind_some]
    rfl

/-- A failed tag is the only failure, and it leaves the state and the buffer. -/
theorem decryptAndHashInto_error {out' : Bytes} (hk : s.hasKey=true) (hct : tagLen ≤ ct.length)
    (h : decryptAndHashInto S s out ct=some (.error e,out',s')) : e=.DecryptFailed ∧ out'=out ∧ s'=s := by
  rw [decryptAndHashInto_read hk hct] at h
  cases hd : S.decryptInPlace s.k (Transport.transportNonce s.n) s.h.toList (ct.take (ct.length-tagLen))
      (fixed 16 (ct.drop (ct.length-tagLen))) with
  | none =>
    rw [hd] at h
    cases h
    exact ⟨rfl,rfl,rfl⟩
  | some buf =>
    rw [hd] at h
    obtain ⟨_,_,h⟩ := Option.bind_eq_some_iff.mp h
    obtain ⟨_,_,h⟩ := Option.bind_eq_some_iff.mp h
    cases h

end Buffer

variable (hS : InPlace S)
include hS

theorem decrypted_length {s s' : SymmetricState} {n : Nat} {ct pt : Bytes} (hk : s.hasKey=true)
    (hct : ct.length=n+tagLen) (h : s.decryptAndHash S ct=(.ok pt,s')) : pt.length=n := by
  rw [Noise.SymmetricState.decryptAndHash,if_pos hk] at h
  dsimp only at h
  split at h
  · cases h
  · rename_i pt' hd
    cases h
    rw [hS.decrypts _ _ _ _ _ _ hd,List.length_take]
    omega

theorem decryptAndHash_eq (s : SymmetricState) (n : Nat) (ct : Bytes) (hk : s.hasKey=true) (hn : s.n=0)
    (hct : ct.length=n+tagLen) :
    decryptAndHash S s (zeros n) ct=some (s.decryptAndHash S ct) := by
  have hnext : s.n.toNat+1 < wordLimit := by
    rw [hn]
    decide
  rw [decryptAndHash_into]
  cases hd : s.decryptAndHash S ct with
  | mk res s' =>
    cases res with
    | error e =>
      have hsame := Noise.decryptAndHash_error S s s' ct e hd
      rw [decryptAndHashInto_refused hk (by omega) (congrArg Prod.fst hd),hsame]
      rfl
    | ok pt =>
      have hpt := decrypted_length hS hk hct hd
      rw [decryptAndHashInto_opened hk hnext (by omega) (by rw [zeros_length]; omega) hd,zeros_drop,hpt,Nat.sub_self]
      simp [zeros,Except.map]

end Equations

section Responder

variable {S : Suite} (hS : InPlace S)

theorem range_slice {bs : Bytes} {off n : Nat} (h : off+n ≤ bs.length) : range bs off (off+n)=some (slice bs off n) :=
  range_add h

theorem slice_length {bs : Bytes} {off n : Nat} (h : off+n ≤ bs.length) : (slice bs off n).length=n := by
  rw [slice,List.length_take,List.length_drop]
  omega

include hS

/-- Every slice of the first message is inside its 144 bytes. -/
theorem readInitiation_eq (r : Responder) (msg1 : Bytes) (sig : Key) (hm : msg1.length=msg1Size) :
    readInitiation S r msg1 sig=some (r.readInitiation S msg1 sig) := by
  have hin : ∀off n,off+n ≤ 144 → off+n ≤ msg1.length := fun _ _ h => hm ▸ h
  have hfield : ∀off n,off+n ≤ 144 → field msg1 off n=some (fixed n (slice msg1 off n)) := by
    intro off n h
    rw [field,range_slice (hin off n h)]
    exact exact_fixed (slice_length (hin off n h))
  have hfront : range msg1 0 msg1BeforeMac1=some (msg1.take msg1BeforeMac1) :=
    range_front (hin 0 msg1BeforeMac1 (by decide))
  have hstatic : (slice msg1 off1EncStatic (dhLen+tagLen)).length=dhLen+tagLen := slice_length (hin _ _ (by decide))
  have htime : (slice msg1 off1EncTimestamp (8+tagLen)).length=8+tagLen := slice_length (hin _ _ (by decide))
  rw [readInitiation,Noise.Responder.readInitiation,hfield off1Mac1 macBytes (by decide),hfront]
  simp only [Option.bind_eq_bind,Option.bind_some,verifyMac1_eq]
  by_cases hv : Noise.verifyMac1 S sig (msg1.take msg1BeforeMac1) (fixed 16 (slice msg1 off1Mac1 16))=false
  · rw [if_pos hv,if_pos hv]
    rfl
  rw [if_neg hv,if_neg hv,hfield off1Ephemeral 32 (by decide)]
  simp only [Option.bind_some,mixHash_eq]
  have hre : fixed 32 (slice msg1 off1Ephemeral dhLen)=fixed 32 (slice msg1 off1Ephemeral 32) := rfl
  rw [hre]
  generalize fixed 32 (slice msg1 off1Ephemeral 32)=re
  cases dh S r.staticKp.secret re with
  | error e => rfl
  | ok es =>
    dsimp only
    rw [mixKey_eq,range_slice (hin off1EncStatic (dhLen+tagLen) (by decide))]
    simp only [Option.bind_some]
    rw [decryptAndHash_eq hS ((r.sym.mixHash S re.toList).mixKey S es) dhLen _ rfl rfl hstatic]
    simp only [Option.bind_some]
    cases hd : ((r.sym.mixHash S re.toList).mixKey S es).decryptAndHash S (slice msg1 off1EncStatic (dhLen+tagLen)) with
    | mk res sym =>
      cases res with
      | error e => rfl
      | ok static =>
        have hpub : exact static 32=some (fixed 32 static) := exact_fixed (decrypted_length hS rfl hstatic hd)
        dsimp only
        rw [hpub]
        simp only [Option.bind_some]
        cases dh S r.staticKp.secret (fixed 32 static) with
        | error e => rfl
        | ok ss =>
          dsimp only
          rw [mixKey_eq,range_slice (hin off1EncTimestamp (8+tagLen) (by decide))]
          simp only [Option.bind_some]
          rw [decryptAndHash_eq hS (sym.mixKey S ss) 8 _ rfl rfl htime]
          simp only [Option.bind_some]
          cases ht : (sym.mixKey S ss).decryptAndHash S (slice msg1 off1EncTimestamp (8+tagLen)) with
          | mk res sym' =>
            cases res with
            | error e => rfl
            | ok ts =>
              have hts : ts.length=8 := decrypted_length hS rfl htime ht
              dsimp only
              rw [exact_fixed hts,hfield off1SenderIndex 4 (by decide)]
              simp only [Option.bind_some,toList_fixed ts hts,
                toList_fixed _ (slice_length (hin off1SenderIndex 4 (by decide)))]
              rfl

omit hS

/-- The writes follow one another without a gap. -/
theorem writeFront_eq (senderIndex receiverIndex : UInt32) (ephemeral : Key) :
    writeFront senderIndex receiverIndex ephemeral (zeros msg2Size)=
      some ([2,0,0,0]++put32 senderIndex++put32 receiverIndex++ephemeral.toList++zeros 48) := by
  have hset : setAt (zeros msg2Size) 0 2=some ([2]++zeros 91) := if_pos (by decide)
  have hpad : copyTo ([2]++zeros 91) (zeros 3) 1 4=some ([2,0,0,0]++zeros 88) := copyTo_next _ _ rfl rfl (by decide)
  have hsender : copyTo ([2,0,0,0]++zeros 88) (put32 senderIndex) 4 8=
      some ([2,0,0,0]++put32 senderIndex++zeros 84) := by
    have h := @copyTo_next _ (put32 senderIndex) [2,0,0,0] (zeros 88) 4 8 rfl (by simp) (by simp)
    rwa [zeros_drop,put32_length] at h
  have hreceiver : copyTo ([2,0,0,0]++put32 senderIndex++zeros 84) (put32 receiverIndex) 8 12=
      some ([2,0,0,0]++put32 senderIndex++put32 receiverIndex++zeros 80) := by
    have h := @copyTo_next _ (put32 receiverIndex) ([2,0,0,0]++put32 senderIndex) (zeros 84) 8 12 (by simp) (by simp)
      (by simp)
    rwa [zeros_drop,put32_length] at h
  have heph : copyTo ([2,0,0,0]++put32 senderIndex++put32 receiverIndex++zeros 80) ephemeral.toList 12 44=
      some ([2,0,0,0]++put32 senderIndex++put32 receiverIndex++ephemeral.toList++zeros 48) := by
    have h := @copyTo_next _ ephemeral.toList ([2,0,0,0]++put32 senderIndex++put32 receiverIndex) (zeros 80) 12 44
      (by simp) (by simp) (by simp)
    rwa [zeros_drop,List.Vector.toList_length] at h
  rw [writeFront,hset]
  simp only [Option.bind_eq_bind,Option.bind_some]
  rw [off2SenderIndex,hpad]
  simp only [Option.bind_some]
  rw [hsender]
  simp only [Option.bind_some]
  rw [off2ReceiverIndex,hreceiver]
  exact heph

/-- The payload, the mac and the cookie fill what the front leaves of the 92 bytes. -/
theorem writeBack_eq {front nothing : Bytes} (sig : Key) (mac2 : Mac) (hf : front.length=44) (hn : nothing.length=16) :
    writeBack S nothing sig mac2 (front++zeros 48)=
      some (front++nothing++((Noise.computeMac1 S sig (front++nothing)).toList++mac2.toList)) := by
  have hnothing : copyTo (front++zeros 48) nothing off2EncNothing (off2EncNothing+tagLen)=
      some (front++nothing++zeros 32) := by
    have h := @copyTo_next _ nothing front (zeros 48) 44 60 hf.symm (by omega) (by simp [hn])
    rwa [zeros_drop,hn] at h
  have hfl : (front++nothing).length=60 := by rw [List.length_append,hf,hn]
  have hcover : range (front++nothing++zeros 32) 0 msg2BeforeMac1=some (front++nothing) := by
    rw [range_front (by rw [List.length_append,hfl,zeros_length]; decide)]
    exact congrArg some (List.take_left' hfl)
  have hmac : ∀m : Mac,copyTo (front++nothing++zeros 32) m.toList off2Mac1 (off2Mac1+macBytes)=
      some (front++nothing++m.toList++zeros 16) := by
    intro m
    have h := @copyTo_next _ m.toList (front++nothing) (zeros 32) 60 76 hfl.symm (by simp) (by simp)
    rwa [zeros_drop,List.Vector.toList_length] at h
  have hcookie : ∀m : Mac,copyTo (front++nothing++m.toList++zeros 16) mac2.toList off2Mac2 (off2Mac2+macBytes)=
      some (front++nothing++(m.toList++mac2.toList)) := by
    intro m
    have hl : (front++nothing++m.toList).length=76 := by rw [List.length_append,hfl,List.Vector.toList_length]
    have h := @copyTo_next _ mac2.toList (front++nothing++m.toList) (zeros 16) 76 92 hl.symm (by simp) (by simp)
    rw [zeros_drop,List.Vector.toList_length] at h
    rw [← List.append_assoc (front++nothing)]
    exact h.trans (congrArg some (List.append_nil _))
  rw [writeBack,hnothing]
  simp only [Option.bind_eq_bind,Option.bind_some]
  rw [hcover]
  simp only [Option.bind_some,computeMac1_eq]
  rw [hmac]
  exact hcookie _

include hS

theorem writeResponse_eq (r : Responder) (ephSecret : Key) (senderIndex receiverIndex : UInt32) (sig : Key) (mac2 : Mac) :
    writeResponse S r ephSecret senderIndex receiverIndex sig mac2=
      some (r.writeResponse S ephSecret senderIndex receiverIndex sig mac2) := by
  rw [writeResponse,Noise.Responder.writeResponse]
  simp only [Option.bind_eq_bind,writeFront_eq,Option.bind_some,mixHash_eq]
  cases dh S (KeyPair.fromSecret S ephSecret).secret r.re with
  | error e => rfl
  | ok ee =>
    dsimp only
    rw [mixKey_eq]
    simp only [Option.bind_some]
    cases dh S (KeyPair.fromSecret S ephSecret).secret r.remoteStaticPub with
    | error e => rfl
    | ok se =>
      dsimp only
      rw [mixKey_eq]
      simp only [Option.bind_some]
      generalize hmixed : ((r.sym.mixHash S (KeyPair.fromSecret S ephSecret).pub.toList).mixKey S ee).mixKey S se=sym
      have hkey : sym.hasKey=true := hmixed ▸ rfl
      have hnonce : sym.n.toNat+1 < wordLimit := by
        have hzero : sym.n=0 := hmixed ▸ rfl
        rw [hzero]
        decide
      have hnothing : (sym.encryptAndHash S []).1.length=16 := by
        rw [Noise.SymmetricState.encryptAndHash,if_pos hkey]
        simp [hS.encrypts]
      rw [encryptAndHash_eq sym (zeros tagLen) [] hkey hnonce (hS.encrypts _ _ _ _) (by decide) (by decide)]
      simp only [Option.bind_some]
      rw [writeBack_eq sig mac2 (by simp) hnothing]
      simp only [Noise.msg2Front,List.append_assoc]
      rfl

end Responder

end Bolina.Checked
