import Bolina.Ca.Ca
import Bolina.Client.Session
import Bolina.Codec.CertFormat

namespace Bolina.Client

open Codec Intent State Transport Noise BigEndian
open Utf8 (ascii)
open Ca (Signer)

/-- The identity of a client. What signs is given by its seed. -/
structure ClientKeys where
  kex : KeyPair
  sig : FixedBytes 32
  approver : FixedBytes 32
  ca : FixedBytes 32

section Builders

variable (D : Signer) (ck : ClientKeys)

def certName : Bytes := ascii "integration-client"

/-- Version 3 with one scope: the agent role needs no quorum. -/
def clientCertTbs (nb na : UInt64) : Bytes :=
  [3]++[roleAgent]++(D.verifyingKey ck.sig).toList++ck.kex.pub.toList++put64 nb++put64 na++pushField16 certName++[1]++
    List.replicate lenScopeId 0

/-- The certificate that the client signs for itself. -/
def buildCert (nb na : UInt64) : Bytes :=
  clientCertTbs D ck nb na++[1]++(D.verifyingKey ck.ca).toList++(D.sign ck.ca (domainCert::clientCertTbs D ck nb na)).toList

/-- What is in front of the signature of an envelope without parents. -/
def envelopeTbs (channel sender : FixedBytes 32) (seq ts : UInt64) (bodyType : UInt8) (body : Bytes) : Bytes :=
  [2]++channel.toList++sender.toList++put64 seq++[0]++put64 ts++[bodyType]++pushField32 body

def buildEnvelope (sigKey : FixedBytes 32) (channel sender : FixedBytes 32) (seq ts : UInt64) (bodyType : UInt8)
    (body : Bytes) : Bytes :=
  envelopeTbs channel sender seq ts bodyType body++
    (D.sign sigKey (domainEnvelope::envelopeTbs channel sender seq ts bodyType body)).toList

end Builders

/-- What is relied on of the signing crate: what a seed signs verifies under its key. -/
def Signs (K : Crypto) (D : Signer) : Prop :=
  ∀seed msg,K.ed25519 (D.verifyingKey seed).toList msg (D.sign seed msg).toList=true

section Accepted

variable {K : Crypto} {D : Signer} {ck : ClientKeys}

theorem fixed_length {n : Nat} (bs : FixedBytes n) : bs.toList.length=n := bs.toList_length

theorem Signs.verifies (h : Signs K D) (seed : FixedBytes 32) (tag : UInt8) (tbs : Bytes) :
    verifySigned K tag tbs (D.sign seed (tag::tbs)).toList (D.verifyingKey seed).toList=true := by
  simp [verifySigned,h seed,lenPubkey,lenSig]

/-- The certificate as the daemon reads it. -/
def clientCert (D : Signer) (ck : ClientKeys) (nb na : UInt64) : Cert where
  version := 3
  roleBits := roleAgent
  sigPubkey := (D.verifyingKey ck.sig).toList
  kexPubkey := ck.kex.pub.toList
  notBefore := nb
  notAfter := na
  name := certName
  scopeCount := 1
  scopeIds := List.replicate lenScopeId 0
  caSigCount := 1
  caSigs := (D.verifyingKey ck.ca).toList++(D.sign ck.ca (domainCert::clientCertTbs D ck nb na)).toList
  tbs := clientCertTbs D ck nb na

theorem clientCert_tbs (D : Signer) (ck : ClientKeys) (nb na : UInt64) :
    tbsOfCert (clientCert D ck nb na)=clientCertTbs D ck nb na := rfl

theorem buildCert_encodes (D : Signer) (ck : ClientKeys) (nb na : UInt64) :
    buildCert D ck nb na=encodeCert (clientCert D ck nb na) := by
  rw [encodeCert_eq,clientCert_tbs,buildCert,clientCert]
  simp only [List.append_assoc]

theorem buildCert_parses (D : Signer) (ck : ClientKeys) (nb na : UInt64) :
    parseCert (buildCert D ck nb na)=.ok (clientCert D ck nb na) := by
  obtain ⟨_,_,hcert⟩ := cert_exact
  have hname : certName.length ≤ maxName := by decide
  have hscope : (1 : UInt8) ≤ maxScope ∧ (List.replicate lenScopeId (0 : UInt8)).length=(1 : UInt8).toNat*lenScopeId := by
    decide
  have hcount : (1 : UInt8)≠0 ∧ (1 : UInt8) ≤ maxCaSigs := by decide
  have hfits : certWire.Fits (clientCert D ck nb na) := by
    refine ⟨⟨fixed_length _,fixed_length _,hname,hscope.1,hscope.2⟩,hcount.1,hcount.2,?_,?_⟩
    · simp [clientCert,lenCaKey,lenSig]
    · exact List.isChain_singleton _
  rw [buildCert_encodes]
  exact hcert.roundTrip.2 _ hfits

/-- The certificate is accepted where its key is trusted, while it is in force. -/
theorem clientCert_valid (hs : Signs K D) (ck : ClientKeys) (nb na now : UInt64) (trusted : List Bytes)
    (hca : (D.verifyingKey ck.ca).toList∈trusted) (hnb : nb ≤ now) (hna : now < na) :
    validateCert K (certView (clientCert D ck nb na)) trusted now=.ok () := by
  rw [validateCert_iff]
  have hrole : (certView (clientCert D ck nb na)).roleBits=roleAgent := rfl
  refine ⟨⟨?_,?_,?_,?_⟩,hnb,hna⟩
  · rw [hrole]
    exact ⟨by decide,by decide,by decide⟩
  · rw [hrole]
    exact fun h => absurd h (by decide)
  · rw [hrole]
    exact fun h => absurd h (by decide)
  · intro i hi
    have h0 : i=0 := Nat.lt_one_iff.mp hi
    subst h0
    have hkey : (((certView (clientCert D ck nb na)).caSigs.drop (0*pairLen)).take lenCaKey)=
        (D.verifyingKey ck.ca).toList := by
      rw [Nat.zero_mul,List.drop_zero]
      exact List.take_left' (fixed_length _)
    have hsig : (((certView (clientCert D ck nb na)).caSigs.drop (0*pairLen+lenCaKey)).take lenCaSig)=
        (D.sign ck.ca (domainCert::clientCertTbs D ck nb na)).toList := by
      rw [Nat.zero_mul,Nat.zero_add]
      have hdrop : (certView (clientCert D ck nb na)).caSigs.drop lenCaKey=
          (D.sign ck.ca (domainCert::clientCertTbs D ck nb na)).toList := List.drop_left' (fixed_length _)
      rw [hdrop]
      exact List.take_of_length_le (Nat.le_of_eq (fixed_length _))
    refine ⟨?_,?_,?_⟩
    · simp [certView,clientCert,pairLen,lenCaKey,lenCaSig]
    · rw [hkey,hsig]
      exact hs.verifies ck.ca domainCert _
    · rw [hkey,inTrustSet,List.any_eq_true]
      exact ⟨_,hca,beq_self_eq_true _⟩

/-- What is in an envelope apart from its sender and the signature. -/
structure Letter where
  channel : FixedBytes 32
  seq : UInt64
  ts : UInt64
  bodyType : UInt8
  body : Bytes

def Letter.wire (D : Signer) (sigKey : FixedBytes 32) (l : Letter) : Bytes :=
  buildEnvelope D sigKey l.channel (D.verifyingKey sigKey) l.seq l.ts l.bodyType l.body

/-- The envelope as the daemon reads it. -/
def Letter.envelope (D : Signer) (sigKey : FixedBytes 32) (l : Letter) : Envelope where
  version := 2
  channelId := l.channel.toList
  sender := (D.verifyingKey sigKey).toList
  seq := l.seq
  parentCount := 0
  parents := []
  ts := l.ts
  bodyType := l.bodyType
  body := l.body
  tbs := envelopeTbs l.channel (D.verifyingKey sigKey) l.seq l.ts l.bodyType l.body
  sig := (D.sign sigKey (domainEnvelope::envelopeTbs l.channel (D.verifyingKey sigKey) l.seq l.ts l.bodyType l.body)).toList

def Letter.overhead : Nat := 151

theorem Letter.wire_length (D : Signer) (sigKey : FixedBytes 32) (l : Letter) :
    (l.wire D sigKey).length=l.body.length+Letter.overhead := by
  simp only [Letter.wire,buildEnvelope,envelopeTbs,pushField32,List.length_append,fixed_length,beBytes_length,put64_length,
    List.length_cons,List.length_nil,Letter.overhead]
  omega

/-- An envelope that the client builds passes every check that reads nothing of the daemon. -/
theorem Letter.sealed {S : Suite} (hs : Signs S.toCrypto D) (sigKey : FixedBytes 32) (l : Letter)
    (hbody : l.body.length ≤ maxBody) : Sealed S (l.wire D sigKey) (l.envelope D sigKey) := by
  obtain ⟨_,_,henvelope⟩ := envelope_exact
  have htbs : tbsOfEnvelope (l.envelope D sigKey)=
      envelopeTbs l.channel (D.verifyingKey sigKey) l.seq l.ts l.bodyType l.body := by
    simp [tbsOfEnvelope,Letter.envelope,envelopeTbs]
  have hwire : l.wire D sigKey=encodeEnvelope (l.envelope D sigKey) := by
    change l.wire D sigKey=tbsOfEnvelope (l.envelope D sigKey)++(l.envelope D sigKey).sig
    rw [htbs]
    rfl
  have hcount : (0 : UInt8) ≤ maxParents := by decide
  have hfits : envelopeWire.Fits (l.envelope D sigKey) :=
    ⟨⟨fixed_length _,fixed_length _,hcount,rfl,hbody⟩,fixed_length _⟩
  have hparse := henvelope.roundTrip.2 _ hfits
  have hsame : envelopeWire.sealed (l.envelope D sigKey)=l.envelope D sigKey := by
    rw [envelopeWire]
    dsimp only
    rw [htbs]
    rfl
  have hsender : (l.envelope D sigKey).sender.length=lenPubkey := fixed_length _
  have hsig : (l.envelope D sigKey).sig.length=lenSig := fixed_length _
  refine ⟨?_,?_,?_,?_⟩
  · rw [hwire]
    exact hparse.trans (congrArg Except.ok hsame)
  · rintro (hw|hw)
    · exact hw hsender
    · exact hw (fixed_length l.channel)
  · rw [verifyEnvelope,verifySignedErr,if_neg (not_not.mpr hsender),if_neg (not_not.mpr hsig)]
    exact if_pos (hs.verifies sigKey domainEnvelope _)
  · exact not_not.mpr rfl

end Accepted

end Bolina.Client
