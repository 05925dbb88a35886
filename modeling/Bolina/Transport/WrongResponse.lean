import Bolina.Transport.NoiseAgreement

namespace Bolina.Noise

open BigEndian Codec Transport Ciphers

/-- The hash of a transcript that goes on with the parts of a message. -/
def absorb (S : Suite) (h : Key) (parts : List Bytes) : Key := parts.foldl (fun h part => S.blake2s (h.toList++part)) h

def responseEphemeral (msg2 : Bytes) : Key := fixed 32 (slice msg2 off2Ephemeral dhLen)

def responsePayload (msg2 : Bytes) : Bytes := slice msg2 off2EncNothing tagLen

def responseMac1 (msg2 : Bytes) : Mac := fixed 16 (slice msg2 off2Mac1 16)

/-- The first check of a response, which needs public data only. -/
def PassesMac1 (S : Suite) (responderSigPubkey : Key) (msg2 : Bytes) : Prop :=
  verifyMac1 S responderSigPubkey (msg2.take msg2BeforeMac1) (responseMac1 msg2)=true

/-- The initiator after `n` readings of one message. -/
def Initiator.reads (S : Suite) (i : Initiator) (msg2 : Bytes) (responderSigPubkey : Key) : Nat → Initiator
  | 0 => i
  | n+1 => ((i.reads S msg2 responderSigPubkey n).readResponse S msg2 responderSigPubkey).2

/-- Behind `n` readings of the forged message the genuine one is still read, to the same keys and hash. -/
def Survives (S : Suite) (i : Initiator) (msg2 forged : Bytes) (responderSigPubkey : Key) (n : Nat) : Prop :=
  let undisturbed := i.readResponse S msg2 responderSigPubkey
  let disturbed := (i.reads S forged responderSigPubkey n).readResponse S msg2 responderSigPubkey
  disturbed.1=.ok () ∧ disturbed.2.finalize S=undisturbed.2.finalize S

section Read

variable (S : Suite) (i : Initiator) (msg2 : Bytes) (pk : Key)

/-- A message that fails its mac1 leaves the initiator as it was. -/
theorem readResponse_of_not_passes (h : ¬PassesMac1 S pk msg2) :
    i.readResponse S msg2 pk=(.error .Mac1Failed,i) := by
  rw [PassesMac1,Bool.not_eq_true] at h
  rw [Initiator.readResponse]
  exact if_pos h

theorem decryptAndHash_ok (s s' : SymmetricState) (ct pt : Bytes) (h : s.decryptAndHash S ct=(.ok pt,s')) :
    s'.h=S.blake2s (s.h.toList++ct) := by
  rw [SymmetricState.decryptAndHash] at h
  by_cases hk : s.hasKey=true
  · rw [if_pos hk] at h
    dsimp only at h
    split at h
    · cases h
    · cases h
      rfl
  · rw [if_neg hk] at h
    cases h
    rfl

/-- Behind the mac1 every failure comes too late: the ephemeral key is mixed in. -/
theorem readResponse_error_hash (i' : Initiator) (e : Error) (hp : PassesMac1 S pk msg2)
    (h : i.readResponse S msg2 pk=(.error e,i')) : i'.sym.h=absorb S i.sym.h [(responseEphemeral msg2).toList] := by
  have hmac : ¬verifyMac1 S pk (msg2.take msg2BeforeMac1) (fixed 16 (slice msg2 off2Mac1 16))=false := by
    rw [Bool.not_eq_false]
    exact hp
  rw [Initiator.readResponse,if_neg hmac] at h
  dsimp only at h
  split at h
  · cases h
    rfl
  split at h
  · cases h
    rfl
  split at h
  · rename_i hdec
    cases h
    have hs := decryptAndHash_error S _ _ _ _ hdec
    rw [hs]
    rfl
  · cases h

theorem readResponse_ok_hash (i' : Initiator) (h : i.readResponse S msg2 pk=(.ok (),i')) :
    i'.sym.h=absorb S i.sym.h [(responseEphemeral msg2).toList,responsePayload msg2] := by
  rw [Initiator.readResponse] at h
  split at h
  · cases h
  dsimp only at h
  split at h
  · cases h
  split at h
  · cases h
  split at h
  · cases h
  · rename_i hdec
    cases h
    exact decryptAndHash_ok S _ _ _ _ hdec

theorem reads_of_not_passes (h : ¬PassesMac1 S pk msg2) (n : Nat) : i.reads S msg2 pk n=i := by
  induction n with
  | zero => rfl
  | succ n ih => rw [Initiator.reads,ih,readResponse_of_not_passes S i msg2 pk h]

theorem survives_of_not_passes (forged : Bytes) (i' : Initiator) (hread : i.readResponse S msg2 pk=(.ok (),i'))
    (h : ¬PassesMac1 S pk forged) (n : Nat) : Survives S i msg2 forged pk n := by
  rw [Survives,reads_of_not_passes S i forged pk h]
  exact ⟨by rw [hread],rfl⟩

/-- A forgery that passes its mac1 stays in the transcript, so the genuine message ends in another hash. -/
theorem not_survives_of_passes (forged : Bytes) (i' : Initiator) (e : Error)
    (hread : i.readResponse S msg2 pk=(.ok (),i')) (hforged : (i.readResponse S forged pk).1=.error e)
    (hp : PassesMac1 S pk forged)
    (hhash : absorb S i.sym.h
        [(responseEphemeral forged).toList,(responseEphemeral msg2).toList,responsePayload msg2]≠
      absorb S i.sym.h [(responseEphemeral msg2).toList,responsePayload msg2]) :
    ¬Survives S i msg2 forged pk 1 := by
  intro hs
  obtain ⟨hok,hsame⟩ := hs
  have hpoisoned : (i.reads S forged pk 1).sym.h=absorb S i.sym.h [(responseEphemeral forged).toList] :=
    readResponse_error_hash S i forged pk _ e hp (Prod.ext hforged rfl)
  have hgenuine := readResponse_ok_hash S i msg2 pk i' hread
  have hlate := readResponse_ok_hash S (i.reads S forged pk 1) msg2 pk _ (Prod.ext hok rfl)
  rw [hpoisoned] at hlate
  have hhashes := congrArg HandshakeResult.handshakeHash hsame
  simp only [Initiator.finalize] at hhashes
  rw [hlate,hread,hgenuine] at hhashes
  exact hhash hhashes

end Read

/-- What a forged response does to a handshake that waits for the genuine one: nothing, however often it is
read, exactly if it fails its mac1; unless two transcripts, with and without the forged key, have one hash. -/
theorem forged_response_iff (S : Suite) (si sr ei er sig : Key) (index slot : UInt32) (ts : UInt64)
    (cookie1 cookie2 : Mac) (msg1 msg2 : Bytes) (i₁ i₂ : Initiator) (r₁ r₂ : Responder)
    (hrun : Agreement S si sr ei er sig index slot ts cookie1 cookie2 msg1 msg2 i₁ i₂ r₁ r₂)
    (forged : Bytes) (e : Error) (hforged : (i₁.readResponse S forged sig).1=.error e)
    (hhash : absorb S i₁.sym.h
        [(responseEphemeral forged).toList,(responseEphemeral msg2).toList,responsePayload msg2]≠
      absorb S i₁.sym.h [(responseEphemeral msg2).toList,responsePayload msg2]) :
    (∀n,Survives S i₁ msg2 forged sig n) ↔ ¬PassesMac1 S sig forged := by
  constructor
  · intro hs hp
    exact not_survives_of_passes S i₁ msg2 sig forged i₂ e hrun.reads2 hforged hp hhash (hs 1)
  · intro hp n
    exact survives_of_not_passes S i₁ msg2 sig forged i₂ hrun.reads2 hp n

section Sample

/-- The real ciphers on a plaintext of at most one block. -/
theorem encryptAndHash_block (s : SymmetricState) (hk : s.hasKey=true) (pt : Bytes) (h : pt.length ≤ 64) :
    s.encryptAndHash sampleSuite pt=
      let ct := pt.mapIdx (fun i b => b^^^(block s.k.toList (transportNonce s.n) 1).getD i 0)
      let out := ct++(fixed 16 (tag s.k.toList (transportNonce s.n) s.h.toList ct)).toList
      (out,SymmetricState.mixHash sampleSuite { s with n := s.n+1 } out) := by
  have hx := xorStream_block s.k.toList (transportNonce s.n) pt h
  rw [SymmetricState.encryptAndHash,if_pos hk]
  simp only [sampleSuite,hx]

def sampleState (h ck k : Nat) : SymmetricState := ⟨key32 h,key32 ck,key32 k,0,true⟩

/-- The states of the sample handshake: before the first shared secret, and behind each of the
secrets and payloads. -/
def sampleStart : SymmetricState where
  h := key32 0xdf7fb7aaeeeedb72e07e8190db5830aadff12924e9f1473d761d5f1baf5a406b
  ck := key32 0xbbea022b948cf3bc5857d70804229179e1116bc40cb8cc074835349c464bca36
  k := zeroKey
  n := 0
  hasKey := false

def sampleEs : SymmetricState :=
  sampleState 0xdf7fb7aaeeeedb72e07e8190db5830aadff12924e9f1473d761d5f1baf5a406b
    0xb2de8259dc35a197c9d08ff3bb3a1ab6be2ac4ced1087f2eda169649bc5ea22e
    0x8a69c1fad7a0cd24bedc1307c95b584809ea82e8367fba67f30818757045fa96

def sampleStatic : SymmetricState :=
  { sampleEs with
    h := key32 0x1f4d5e48bdea30af5356f1767b7fab7c31ee9edbf44b188b5ba2f6c946cdbd86
    n := 1 }

def sampleSs : SymmetricState :=
  sampleState 0x1f4d5e48bdea30af5356f1767b7fab7c31ee9edbf44b188b5ba2f6c946cdbd86
    0xc40e482257d7cf27305c178c9c056b2418b14f5c49127b171e4db83d468b4597
    0xd0c301fd48e778f79106be6d12ec1dba304816e284e6acd3d7b9550ec15570c0

def sampleTimed : SymmetricState :=
  { sampleSs with
    h := key32 0x18882e44396cdb593668141ab2755eecb1deb8c7a1f234ba86ad125d797e2530
    n := 1 }

def sampleHeard : SymmetricState :=
  { sampleTimed with h := key32 0x769c1352ac27ace6956cbf7bbdabe862506f8428affaceafc1ac86cf6e509d19 }

def sampleEe : SymmetricState :=
  sampleState 0x769c1352ac27ace6956cbf7bbdabe862506f8428affaceafc1ac86cf6e509d19
    0x676173b92d5765462cda49980fa5f7d5d10ea345c4f81f307d579a749217326a
    0xca4d465ece997974a5a317d7eb07dbb8c48f2be5e1780932f686a11eb683521f

def sampleSe : SymmetricState :=
  sampleState 0x769c1352ac27ace6956cbf7bbdabe862506f8428affaceafc1ac86cf6e509d19
    0x7f3f6603bb5c1f9202f1151ded371572093c22c8e49c3c9445102e2f7065d466
    0x88e9a87fcc8f2af1c3d48df7d83c9b42f319531a471d93ec8210c29c840d3301

def samplePayload : Bytes := beBytes 16 0x11464e4e8f603b88d21f61c8aa9c9374

def samplePub (secret : Key) : Key := (KeyPair.fromSecret sampleSuite secret).pub

theorem samplePub_eq (secret : Key) : (KeyPair.fromSecret sampleSuite secret).pub=samplePub secret := rfl

/-- With and without the zero key in between, the transcript has two hashes. -/
theorem sample_hashes : absorb sampleSuite sampleTimed.h
      [zeroKey.toList,(samplePub responderEph).toList,samplePayload]≠
    absorb sampleSuite sampleTimed.h [(samplePub responderEph).toList,samplePayload] := by decide +kernel

/-- The initiation, state by state. -/
theorem sample_first :
    (firstMixed sampleSuite initiatorSecret responderSecret initiatorEph 1700000000000).2.2=sampleTimed := by
  have hstart : (Responder.new sampleSuite (KeyPair.fromSecret sampleSuite responderSecret)).sym.mixHash
      sampleSuite (samplePub initiatorEph).toList=sampleStart := by decide +kernel
  have hes : sampleStart.mixKey sampleSuite (sampleSuite.x25519 initiatorEph (samplePub responderSecret))=
      sampleEs := by decide +kernel
  have hstatic : (sampleEs.encryptAndHash sampleSuite (samplePub initiatorSecret).toList).2=sampleStatic := by
    rw [encryptAndHash_block _ rfl _ (by decide +kernel)]
    decide +kernel
  have hss : sampleStatic.mixKey sampleSuite
      (sampleSuite.x25519 initiatorSecret (samplePub responderSecret))=sampleSs := by decide +kernel
  have htimed : (sampleSs.encryptAndHash sampleSuite (put64 1700000000000)).2=sampleTimed := by
    rw [encryptAndHash_block _ rfl _ (by decide +kernel)]
    decide +kernel
  rw [firstMixed,mixInitiation]
  simp only [samplePub_eq,hstart,hes,hstatic,hss,htimed]

/-- The answer, up to its encrypted payload. -/
theorem sample_second :
    (secondMixed sampleSuite initiatorSecret responderSecret initiatorEph responderEph 1700000000000).1=
      samplePayload := by
  have hheard : sampleTimed.mixHash sampleSuite (samplePub responderEph).toList=sampleHeard := by decide +kernel
  have hee : sampleHeard.mixKey sampleSuite (sampleSuite.x25519 initiatorEph (samplePub responderEph))=
      sampleEe := by decide +kernel
  have hse : sampleEe.mixKey sampleSuite
      (sampleSuite.x25519 initiatorSecret (samplePub responderEph))=sampleSe := by decide +kernel
  have hpayload : (sampleSe.encryptAndHash sampleSuite []).1=samplePayload := by decide +kernel
  rw [secondMixed,sample_first,mixResponse]
  simp only [samplePub_eq,hheard,hee,hse,hpayload]

/-- The initiator of the sample handshake after its first message, and the answer of the responder. -/
def sampleInitiator : Initiator := waiting sampleSuite initiatorSecret responderSecret initiatorEph 1700000000000

def sampleResponse : Bytes :=
  sentMsg2 sampleSuite initiatorSecret responderSecret initiatorEph responderEph responderSig 7 0 1700000000000
    (fixed 16 [])

/-- A response with the zero point for a key, and the mac1 that anyone can put to it. -/
def forgedResponse : Bytes :=
  msg2Of 0 7 zeroKey (List.replicate 16 0)
    (computeMac1 sampleSuite responderSig (msg2Front 0 7 zeroKey (List.replicate 16 0))) (fixed 16 [])

theorem forged_fields : Msg2Fields 0 7 zeroKey (List.replicate 16 0)
    (computeMac1 sampleSuite responderSig (msg2Front 0 7 zeroKey (List.replicate 16 0))) forgedResponse :=
  msg2_fields 0 7 zeroKey (List.replicate 16 0) _ (fixed 16 []) List.length_replicate

theorem forged_passes : PassesMac1 sampleSuite responderSig forgedResponse := by
  rw [PassesMac1,responseMac1,forged_fields.front,forged_fields.mac1,fixed_toList]
  exact verifyMac1_compute sampleSuite responderSig _

theorem forged_refused : (sampleInitiator.readResponse sampleSuite forgedResponse responderSig).1=
    .error .IdentityPoint := by
  have hmac : ¬verifyMac1 sampleSuite responderSig (forgedResponse.take msg2BeforeMac1)
      (fixed 16 (slice forgedResponse off2Mac1 16))=false := by
    rw [Bool.not_eq_false]
    exact forged_passes
  have hdh (sk : Key) : dh sampleSuite sk zeroKey=.error .IdentityPoint := if_pos (curve_zero sk)
  rw [Initiator.readResponse,if_neg hmac]
  simp only [forged_fields.ephemeral,fixed_toList,hdh]

theorem sample_run : ∃msg1 i₂ r₁ r₂,Agreement sampleSuite initiatorSecret responderSecret initiatorEph responderEph
    responderSig 7 0 1700000000000 (fixed 16 []) (fixed 16 []) msg1 sampleResponse sampleInitiator i₂ r₁ r₂ :=
  ⟨_,_,_,_,agreement sampleSuite _ _ _ _ _ _ _ _ _ _ sampleSuite_laws (by decide +kernel) (by decide +kernel)
    (by decide +kernel) (by decide +kernel)⟩

theorem sample_apart : absorb sampleSuite sampleInitiator.sym.h
      [(responseEphemeral forgedResponse).toList,(responseEphemeral sampleResponse).toList,
        responsePayload sampleResponse]≠
    absorb sampleSuite sampleInitiator.sym.h
      [(responseEphemeral sampleResponse).toList,responsePayload sampleResponse] := by
  have hf := sentMsg2_fields sampleSuite initiatorSecret responderSecret initiatorEph responderEph responderSig 7 0
    1700000000000 (fixed 16 []) sampleSuite_laws
  have hsym : sampleInitiator.sym=sampleTimed := sample_first
  have hforged : responseEphemeral forgedResponse=zeroKey := by
    rw [responseEphemeral,forged_fields.ephemeral,fixed_toList]
  have heph : responseEphemeral sampleResponse=samplePub responderEph := by
    rw [responseEphemeral,sampleResponse,hf.ephemeral,fixed_toList]
    rfl
  have hpayload : responsePayload sampleResponse=samplePayload := by
    rw [responsePayload,sampleResponse,hf.encNothing,sample_second]
  rw [hsym,hforged,heph,hpayload]
  exact sample_hashes

theorem forged_response_iff_sample :
    (∀n,Survives sampleSuite sampleInitiator sampleResponse forgedResponse responderSig n) ↔
      ¬PassesMac1 sampleSuite responderSig forgedResponse := by
  obtain ⟨msg1,i₂,r₁,r₂,hrun⟩ := sample_run
  exact forged_response_iff sampleSuite _ _ _ _ _ _ _ _ _ _ msg1 _ _ i₂ r₁ r₂ hrun forgedResponse .IdentityPoint
    forged_refused sample_apart

/-- One forged response is refused, and the genuine one behind it does not complete the handshake any more. -/
theorem forged_response_poisons :
    (∃msg1 i₂ r₁ r₂,Agreement sampleSuite initiatorSecret responderSecret initiatorEph responderEph responderSig 7 0
      1700000000000 (fixed 16 []) (fixed 16 []) msg1 sampleResponse sampleInitiator i₂ r₁ r₂) ∧
    ¬∀forged e,forged.length=msg2Size →
      (sampleInitiator.readResponse sampleSuite forged responderSig).1=.error e →
      ∀n,Survives sampleSuite sampleInitiator sampleResponse forged responderSig n := by
  refine ⟨sample_run,fun h => ?_⟩
  obtain ⟨msg1,i₂,r₁,r₂,hrun⟩ := sample_run
  have hsurvives := h forgedResponse .IdentityPoint forged_fields.length forged_refused 1
  exact not_survives_of_passes sampleSuite sampleInitiator sampleResponse responderSig forgedResponse i₂ .IdentityPoint
    hrun.reads2 forged_refused forged_passes sample_apart hsurvives

end Sample

end Bolina.Noise
