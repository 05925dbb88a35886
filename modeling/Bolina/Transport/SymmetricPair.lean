import Bolina.Codec.CheckedCodec
import Bolina.Transport.CheckedNoise

namespace Bolina.Checked

open BigEndian Panic Transport
open Noise (Suite Error SymmetricState tagLen sampleSuite sampleSuite_laws)

section Pair

variable (S : Suite)

/-- What one party encrypts another in the same state decrypts, into any buffer with room
for it, and the two states are equal again; a failure leaves the state and the buffer. -/
structure InverseNeutral (s : SymmetricState) (pt out dst : Bytes) : Prop where
  inverse : ∃ct next,encryptAndHash S s out pt=some (ct,next) ∧
    decryptAndHashInto S s dst ct=some (.ok (),pt++dst.drop pt.length,next)
  neutral : ∀ct buf e buf' next,tagLen ≤ ct.length →
    decryptAndHashInto S s buf ct=some (.error e,buf',next) → next=s ∧ buf'=buf

variable {S} {s : SymmetricState} {pt out dst : Bytes}

theorem encrypt_decrypt (hS : S.AeadCorrect) (out dst : Bytes) (hk : s.hasKey=true) (hn : s.n.toNat+1 < wordLimit)
    (hout : out.length=pt.length+tagLen) (hfit : out.length < sliceLimit) (hdst : pt.length ≤ dst.length) :
    encryptAndHash S s out pt=some (s.encryptAndHash S pt) ∧
      decryptAndHashInto S s dst (s.encryptAndHash S pt).1=
        some (.ok (),pt++dst.drop pt.length,(s.encryptAndHash S pt).2) := by
  have hlen := Noise.encryptAndHash_length S hS s hk pt
  have hback := Noise.decryptAndHash_encryptAndHash S hS s pt
  have hpt : pt.length+tagLen < wordLimit := by
    rw [← hout]
    exact hfit.trans (by decide)
  exact ⟨encryptAndHash_eq s out pt hk hn (hS.inPlace _ _ _ _) hout hpt,
    decryptAndHashInto_opened hk hn hlen.symm hdst hback⟩

@[simp] theorem encrypted_n (hk : s.hasKey=true) : (s.encryptAndHash S pt).2.n=s.n+1 := by
  rw [Noise.SymmetricState.encryptAndHash,if_pos hk]
  rfl

@[simp] theorem encrypted_hasKey (hk : s.hasKey=true) : (s.encryptAndHash S pt).2.hasKey=true := by
  rw [Noise.SymmetricState.encryptAndHash,if_pos hk]
  exact hk

/-- Exactly below the last nonce: there the counter cannot advance. -/
theorem inverse_neutral_iff (S : Suite) (hS : S.AeadCorrect) (s : SymmetricState) (hk : s.hasKey=true) (pt out dst : Bytes)
    (hout : out.length=pt.length+tagLen) (hfit : out.length < sliceLimit) (hdst : pt.length ≤ dst.length) :
    InverseNeutral S s pt out dst ↔ s.n.toNat+1 < 2^64 := by
  constructor
  · intro h
    by_contra hlast
    obtain ⟨ct,next,he,_⟩ := h.inverse
    rw [encryptAndHash_exhausted s out pt hk (Nat.le_of_not_lt hlast) hout] at he
    cases he
  · intro hn
    refine ⟨⟨_,_,encrypt_decrypt hS out dst hk hn hout hfit hdst⟩,?_⟩
    intro ct buf e buf' next hct h
    obtain ⟨_,hbuf,hnext⟩ := decryptAndHashInto_error hk hct h
    exact ⟨hnext,hbuf⟩

theorem inverse_neutral_sample :
    InverseNeutral sampleSuite ⟨zeroKey,zeroKey,zeroKey,7,true⟩ [1,2,3] (zeros 19) (zeros 4) :=
  (inverse_neutral_iff sampleSuite sampleSuite_laws.aead _ rfl _ _ _ (by decide) (by decide) (by decide)).mpr (by decide)

/-- A key that has encrypted as often as a nonce can count. -/
def exhausted : SymmetricState := ⟨zeroKey,zeroKey,zeroKey,18446744073709551615,true⟩

/-- The next encryption ends the program, even of nothing. -/
theorem exhausted_nonce : encryptAndHash sampleSuite exhausted (zeros 16) []=none ∧
    ¬InverseNeutral sampleSuite exhausted [] (zeros 16) [] := by
  have hnone := encryptAndHash_exhausted (S := sampleSuite) exhausted (zeros 16) [] rfl (by decide) (by decide)
  refine ⟨hnone,?_⟩
  intro h
  obtain ⟨ct,next,he,_⟩ := h.inverse
  rw [hnone] at he
  cases he

end Pair

section Runs

variable (S : Suite)

/-- Each plaintext is encrypted into a buffer of its own. -/
def sealAll (s : SymmetricState) : List Bytes → Option (List Bytes × SymmetricState)
  | [] => some ([],s)
  | pt::pts => do
    let (ct,s) ← encryptAndHash S s (zeros (pt.length+tagLen)) pt
    let (cts,s) ← sealAll s pts
    return (ct::cts,s)

/-- What the other party reads of a stream; a ciphertext that is refused is dropped. -/
def openAll (s : SymmetricState) : List Bytes → Option (List Bytes × SymmetricState)
  | [] => some ([],s)
  | ct::cts => do
    let (res,pt,s) ← decryptAndHashInto S s (zeros (ct.length-tagLen)) ct
    let (pts,s) ← openAll s cts
    match res with
    | .error _ => return (pts,s)
    | .ok () => return (pt::pts,s)

variable {S} {s : SymmetricState}

theorem openAll_refused {ct : Bytes} {e : Error} (cts : List Bytes) (hk : s.hasKey=true) (hct : tagLen ≤ ct.length)
    (h : (s.decryptAndHash S ct).1=.error e) : openAll S s (ct::cts)=openAll S s cts := by
  rw [openAll,decryptAndHashInto_refused hk hct h]
  simp only [Option.bind_eq_bind,Option.bind_some]
  cases openAll S s cts <;> rfl

/-- As long as the nonces last, the other party reads every plaintext in order and ends in
the same state. -/
theorem openAll_sealAll (hS : S.AeadCorrect) (hk : s.hasKey=true) (pts : List Bytes)
    (hfit : ∀pt∈pts,pt.length+tagLen < sliceLimit) (hn : s.n.toNat+pts.length < wordLimit) :
    ∃cts next,sealAll S s pts=some (cts,next) ∧ openAll S s cts=some (pts,next) := by
  induction pts generalizing s with
  | nil => exact ⟨[],s,rfl,rfl⟩
  | cons pt pts ih =>
    obtain ⟨hpt,hpts⟩ := List.forall_mem_cons.mp hfit
    rw [List.length_cons] at hn
    have hlast : s.n.toNat+1 < wordLimit := by omega
    have hnext : (s.n+1).toNat=s.n.toNat+1 := by
      rw [UInt64.toNat_add]
      exact Nat.mod_eq_of_lt hlast
    have hlen := Noise.encryptAndHash_length S hS s hk pt
    have hroom : (s.encryptAndHash S pt).1.length-tagLen=pt.length := by omega
    have hwhole : pt++(zeros pt.length).drop pt.length=pt := by simp [zeros]
    obtain ⟨henc,hdec⟩ := encrypt_decrypt hS (zeros (pt.length+tagLen)) (zeros pt.length) hk hlast (zeros_length _)
      (by rwa [zeros_length]) (zeros_length _).ge
    have hmore : (s.encryptAndHash S pt).2.n.toNat+pts.length < wordLimit := by
      rw [encrypted_n hk,hnext]
      omega
    obtain ⟨cts,next,hseal,hopen⟩ := ih (encrypted_hasKey hk) hpts hmore
    refine ⟨(s.encryptAndHash S pt).1::cts,next,?_,?_⟩
    · rw [sealAll,henc]
      simp only [Option.bind_eq_bind,Option.bind_some]
      rw [hseal]
      rfl
    · rw [openAll,hroom,hdec,hwhole]
      simp only [Option.bind_eq_bind,Option.bind_some]
      rw [hopen]
      rfl

end Runs

end Bolina.Checked
