import Bolina.Codec.CertFormat
import Bolina.Transport.Binding

namespace Bolina.Transport

open Codec BigEndian

inductive MeshError where
  | Untrusted
  | Expired
  | BadSignature
  | MalformedCert
  deriving DecidableEq,Repr

structure MeshContext where
  trustedAnchors : List (FixedBytes 32)
  nowMs : UInt64
  isRevoked : FixedBytes 32 → Bool

/-- What an anchor signs for a certificate that a relay serves. -/
def servedTbs (sigPubkey : FixedBytes 32) (expiryMs : UInt64) : Bytes := sigPubkey.toList++put64 expiryMs

def verifyServedCertThen {R : Type} (K : Crypto) (certBytes : Bytes) (ctx : MeshContext)
    (proceed : FixedBytes 32 → R) : Except MeshError R :=
  if certBytes.length < 32+8+64 then .error .MalformedCert
  else
    let sigPubkey : FixedBytes 32 := fixed 32 (certBytes.take 32)
    let expiryMs := be64 ((certBytes.drop 32).take 8)
    let sig := (certBytes.drop 40).take 64
    if expiryMs < ctx.nowMs then .error .Expired
    else
      let tbs := servedTbs sigPubkey expiryMs
      if ctx.trustedAnchors.any (fun anchor => verifySigned K domainCert tbs sig anchor.toList)=false then
        .error .Untrusted
      else if ctx.isRevoked sigPubkey then .error .Untrusted
      else .ok (proceed sigPubkey)

/-- A served certificate that is let through is signed by an anchor, over its key and its expiry. -/
theorem verifyServedCertThen_signed {R : Type} (K : Crypto) (certBytes : Bytes) (ctx : MeshContext)
    (proceed : FixedBytes 32 → R) (r : R) (h : verifyServedCertThen K certBytes ctx proceed=.ok r) :
    ∃sigPubkey expiryMs sig anchor,anchor∈ctx.trustedAnchors ∧ ctx.nowMs ≤ expiryMs ∧
      verifySigned K domainCert (servedTbs sigPubkey expiryMs) sig anchor.toList=true ∧
      r=proceed sigPubkey := by
  rw [verifyServedCertThen] at h
  simp only at h
  split_ifs at h with hlen hexpiry hanchor hrevoked
  cases h
  rw [Bool.not_eq_false,List.any_eq_true] at hanchor
  obtain ⟨anchor,hmem,hsig⟩ := hanchor
  exact ⟨_,_,_,anchor,hmem,UInt64.not_lt.mp hexpiry,hsig,rfl⟩

/-- A message that carries a signature of its own. -/
inductive SignedMessage where
  | cert (c : Cert)
  | envelope (e : Envelope)
  | span (s : Span)
  | grant (g : Grant)
  | refusal (r : Refusal)

namespace SignedMessage

/-- The bytes `w` are accepted as this message. -/
def Accepted (w : Bytes) : SignedMessage → Prop
  | cert c => parseCert w=.ok c
  | envelope e => parseEnvelope w=.ok e
  | span s => parseSpan w=.ok s
  | grant g => parseGrant w=.ok g
  | refusal r => parseRefusal w=.ok r

def domainTag : SignedMessage → UInt8
  | cert _ => domainCert
  | envelope _ => domainEnvelope
  | span _ => domainSpan
  | grant _ => domainGrant
  | refusal _ => domainRefusal

def tbs : SignedMessage → Bytes
  | cert c => c.tbs
  | envelope e => e.tbs
  | span s => s.tbs
  | grant g => g.tbs
  | refusal r => r.tbs

/-- The input that the signatures of a message are verified over. -/
def signedInput (m : SignedMessage) : Bytes := m.domainTag::m.tbs

/-- The kind of a message and every field of it but the signature part. -/
def signedFields : SignedMessage → SignedMessage
  | cert c => cert { c with caSigCount := 0,caSigs := [],tbs := [] }
  | envelope e => envelope { e with tbs := [],sig := [] }
  | span s => span { s with tbs := [],sig := [] }
  | grant g => grant { g with tbs := [],sig := [] }
  | refusal r => refusal { r with tbs := [],sig := [] }

/-- The signed prefix that an accepted message must have. -/
def Written : SignedMessage → Prop
  | cert c => certFits c ∧ c.tbs=tbsOfCert c
  | envelope e => envelopeFits e ∧ e.tbs=tbsOfEnvelope e
  | span s => spanFits s ∧ s.tbs=tbsOfSpan s
  | grant g => grantFits g ∧ g.tbs=tbsOfGrant g
  | refusal r => refusalFits r ∧ r.tbs=tbsOfRefusal r

theorem written (w : Bytes) (m : SignedMessage) (h : m.Accepted w) : m.Written := by
  cases m with
  | cert c =>
    obtain ⟨_,_,hx⟩ := cert_exact
    exact ⟨((hx.accepts w c).mp h).1.1,hx.recorded (fun _ => rfl) h⟩
  | envelope e =>
    obtain ⟨_,_,hx⟩ := envelope_exact
    exact ⟨((hx.accepts w e).mp h).1.1,hx.recorded (fun _ => rfl) h⟩
  | span s =>
    obtain ⟨_,_,hx⟩ := span_exact
    exact ⟨((hx.accepts w s).mp h).1.1,hx.recorded (fun _ => rfl) h⟩
  | grant g =>
    obtain ⟨_,_,hx⟩ := grant_exact
    exact ⟨((hx.accepts w g).mp h).1.1,hx.recorded (fun _ => rfl) h⟩
  | refusal r =>
    obtain ⟨_,_,hx⟩ := refusal_exact
    exact ⟨((hx.accepts w r).mp h).1.1,hx.recorded (fun _ => rfl) h⟩

/-- Values of one format with one signed prefix agree on what it covers. -/
theorem fields_inj {α : Type} {x : Parser α} {P : α → Prop} {word : α → Bytes} (hx : Lays x P word) (fields : α → α)
    (hword : ∀v,word (fields v)=word v) {a b : α} {s t : Bytes} (ha : P (fields a)) (hb : P (fields b)) (hs : s=word a)
    (ht : t=word b) (he : s=t) : fields a=fields b := by
  apply hx.inj (fields a) (fields b) ha hb
  rw [hword,hword,← hs,← ht,he]

theorem fields_of_input (m m' : SignedMessage) (h : m.Written) (h' : m'.Written) (he : m.signedInput=m'.signedInput) :
    m.signedFields=m'.signedFields := by
  obtain ⟨htag,htbs⟩ := List.cons.inj he
  cases m with
  | cert c =>
    cases m' with
    | cert c' =>
      exact congrArg cert (fields_inj codes_certFields (fun c => { c with caSigCount := 0,caSigs := [],tbs := [] })
        (fun _ => rfl) ⟨h.1,rfl,rfl,rfl⟩ ⟨h'.1,rfl,rfl,rfl⟩ h.2 h'.2 htbs)
    | _ => exact absurd htag (by simp only [domainTag]; decide)
  | envelope e =>
    cases m' with
    | envelope e' =>
      exact congrArg envelope (fields_inj codes_envelopeFields (fun e => { e with tbs := [],sig := [] }) (fun _ => rfl)
        ⟨h.1,rfl,rfl⟩ ⟨h'.1,rfl,rfl⟩ h.2 h'.2 htbs)
    | _ => exact absurd htag (by simp only [domainTag]; decide)
  | span s =>
    cases m' with
    | span s' =>
      exact congrArg span (fields_inj codes_spanFields (fun s => { s with tbs := [],sig := [] }) (fun _ => rfl)
        ⟨h.1,rfl,rfl⟩ ⟨h'.1,rfl,rfl⟩ h.2 h'.2 htbs)
    | _ => exact absurd htag (by simp only [domainTag]; decide)
  | grant g =>
    cases m' with
    | grant g' =>
      exact congrArg grant (fields_inj codes_grantFields (fun g => { g with tbs := [],sig := [] }) (fun _ => rfl)
        ⟨h.1,rfl,rfl⟩ ⟨h'.1,rfl,rfl⟩ h.2 h'.2 htbs)
    | _ => exact absurd htag (by simp only [domainTag]; decide)
  | refusal r =>
    cases m' with
    | refusal r' =>
      exact congrArg refusal (fields_inj codes_refusalFields (fun r => { r with tbs := [],sig := [] }) (fun _ => rfl)
        ⟨h.1,rfl,rfl⟩ ⟨h'.1,rfl,rfl⟩ h.2 h'.2 htbs)
    | _ => exact absurd htag (by simp only [domainTag]; decide)

/-- A certificate's signed prefix holds two keys, so it is longer than what an anchor signs. -/
theorem served_ne_cert (c : Cert) (h : (cert c).Written) (sigPubkey : FixedBytes 32) (expiryMs : UInt64) :
    servedTbs sigPubkey expiryMs≠c.tbs := by
  intro he
  obtain ⟨⟨hsig,hkex,-⟩,htbs⟩ := h
  have hs : c.sigPubkey.length=32 := hsig
  have hk : c.kexPubkey.length=32 := hkex
  have hlen := congrArg List.length he
  rw [htbs,servedTbs,tbsOfCert] at hlen
  simp only [List.length_append,List.Vector.toList_length,put64_length,hs,hk,List.length_cons,
    List.length_nil] at hlen
  omega

/-- No other kind of message is signed under the tag of the certificates. -/
theorem served_ne (m : SignedMessage) (h : m.Written) (sigPubkey : FixedBytes 32) (expiryMs : UInt64) :
    domainCert::servedTbs sigPubkey expiryMs≠m.signedInput := by
  intro he
  obtain ⟨htag,htbs⟩ := List.cons.inj he
  cases m with
  | cert c => exact served_ne_cert c h sigPubkey expiryMs htbs
  | _ => exact absurd htag (by simp only [domainTag]; decide)

theorem binding_ne (m : SignedMessage) (handshakeHash : Bytes) : domainBinding::handshakeHash≠m.signedInput := by
  intro he
  have htag := (List.cons.inj he).1
  cases m <;> exact absurd htag (by simp only [domainTag]; decide)

end SignedMessage

/-- One signed input stands for one message: its kind and each of its signed fields. What an
anchor signs for a served certificate, and what a binding frame signs, is none of them. -/
theorem signedInput_unique :
    (∀w w' m m',SignedMessage.Accepted w m → SignedMessage.Accepted w' m' → m.signedInput=m'.signedInput →
      m.signedFields=m'.signedFields) ∧
    (∀w m,SignedMessage.Accepted w m → ∀sigPubkey expiryMs,domainCert::servedTbs sigPubkey expiryMs≠m.signedInput) ∧
    (∀w m,SignedMessage.Accepted w m → ∀h : FixedBytes 32,domainBinding::h.toList≠m.signedInput) ∧
    ∀(h sigPubkey : FixedBytes 32) (expiryMs : UInt64),
      domainBinding::h.toList≠domainCert::servedTbs sigPubkey expiryMs := by
  refine ⟨?_,?_,?_,?_⟩
  · intro w w' m m' h h' he
    exact SignedMessage.fields_of_input m m' (SignedMessage.written w m h) (SignedMessage.written w' m' h') he
  · intro w m h sigPubkey expiryMs
    exact SignedMessage.served_ne m (SignedMessage.written w m h) sigPubkey expiryMs
  · intro w m _ h
    exact SignedMessage.binding_ne m h.toList
  · intro h sigPubkey expiryMs he
    exact absurd (List.cons.inj he).1 (by decide)

end Bolina.Transport
