import Bolina.Transport.Binding
import Bolina.Transport.DispatchStep

namespace Bolina.Transport

open Codec Intent BigEndian

section Separation

variable {σ : Type} (K : Crypto) (d : Dispatch) (envBytes : Bytes) (hooks : Hooks σ) (nowMs : UInt64) (s : σ)

/-- The context of a dispatch with a certificate for each of the two parties. -/
def Dispatch.separateContext (approverCert subjectCert : Cert) : GrantContext :=
  { d.grantContext hooks s approverCert nowMs with subjectCert }

/-- A grant by one party for the pending intent of another, each with a certificate
of its own, that passes every check with these two certificates. -/
structure Separated (trusted : List Bytes) (env : Envelope) (grant : Grant) (approverCert subjectCert : Cert) :
    Prop where
  signed : Signed K envBytes env
  parses : parseGrant env.body=.ok grant
  apart : grant.approver≠grant.subject
  approver : hooks.certForSender env.sender=some approverCert
  subject : hooks.certForSender grant.subject=some subjectCert
  approverChain : validateCertChain K (certView approverCert) trusted=.ok ()
  subjectChain : validateCertChain K (certView subjectCert) trusted=.ok ()
  authorised : Authorised K env grant (d.separateContext hooks nowMs s approverCert subjectCert)
  bounded : ¬ExpiryOverflows grant (d.separateContext hooks nowMs s approverCert subjectCert)

/-- The dispatch returns `Ok` and runs the effect callback exactly once. -/
def ExecutesOnce (grant : Grant) : Prop :=
  (∃o,(d.traced K envBytes hooks nowMs s).1=.ok o) ∧
    (d.traced K envBytes hooks nowMs s).2.2.2=[.effect grant]

/-- Every grant between two parties that passes the checks is executed. -/
def Complete : Prop :=
  ∀trusted env grant approverCert subjectCert,
    Separated K d envBytes hooks nowMs s trusted env grant approverCert subjectCert →
      ExecutesOnce K d envBytes hooks nowMs s grant

variable {K d envBytes hooks nowMs s} {trusted : List Bytes} {env : Envelope} {grant : Grant}
variable {approverCert subjectCert : Cert}

/-- The approver's certificate does not carry the agent role. -/
theorem Separated.noAgent (h : Separated K d envBytes hooks nowMs s trusted env grant approverCert subjectCert) :
    approverCert.roleBits&&&roleAgent=0 := by
  have hc := (validateCertChain_iff K (certView approverCert) trusted).mp h.approverChain
  by_contra hr
  exact hc.role.agentApprover ⟨hr,h.authorised.approverRole⟩

/-- Check 4 is the first to fail when the sender's certificate stands in both places. -/
theorem Separated.codeError (h : Separated K d envBytes hooks nowMs s trusted env grant approverCert subjectCert) :
    codeError K env grant (d.grantContext hooks s approverCert nowMs)=some .BadSubjectCert := by
  have hnone := (matched_iff K env grant _).mp h.authorised.toMatched
  rw [firstFailing_eq_none] at hnone
  have hsubject : certCheck approverCert roleAgent grant.subject (hooks.isRevoked s) .BadSubjectCert
      .SubjectRevoked=some .BadSubjectCert := by
    rw [certCheck,if_pos (Or.inl h.noAgent)]
  have hversion := hnone _ (List.mem_cons_self)
  have hlen := hnone _ (List.mem_cons_of_mem _ List.mem_cons_self)
  have hintent := hnone _ (List.mem_cons_of_mem _ (List.mem_cons_of_mem _ List.mem_cons_self))
  have hearly : ∀c∈earlyChecks K env grant (d.separateContext hooks nowMs s approverCert subjectCert),c=none := by
    intro c hc
    apply hnone
    exact List.mem_cons_of_mem _ (List.mem_cons_of_mem _ (List.mem_cons_of_mem _ (List.mem_append_left _ hc)))
  simp only [earlyChecks,List.forall_mem_cons] at hearly
  obtain ⟨hbind,hsig,hcert,hscope,_⟩ := hearly
  -- the checks in front of check 4 read neither certificate of the subject
  have hcode : firstFailing (codeChecks K env grant (d.grantContext hooks s approverCert nowMs))=
      some .BadSubjectCert := by
    show firstFailing (fails (grant.version≠2) .BadVersion::
      fails (grant.intentId.length≠lenIntentId) .BadEnvelopeBinding::
      intentCheck grant (d.separateContext hooks nowMs s approverCert subjectCert)::
      fails (grant.intentId.length≠lenIntentId ∨ env.bodyType≠bodyGrant ∨ env.sender≠grant.approver)
        .BadEnvelopeBinding::
      verifySignedErr K domainGrant grant.tbs grant.sig grant.approver::
      certCheck approverCert roleApprover grant.approver (hooks.isRevoked s) .BadApproverCert .ApproverRevoked::
      scopeCheck K approverCert grant.resourceId .ApproverOutOfScope::
      certCheck approverCert roleAgent grant.subject (hooks.isRevoked s) .BadSubjectCert .SubjectRevoked::_)=_
    have hcert' : certCheck approverCert roleApprover grant.approver (hooks.isRevoked s) .BadApproverCert
        .ApproverRevoked=none := hcert
    have hscope' : scopeCheck K approverCert grant.resourceId .ApproverOutOfScope=none := hscope
    rw [hversion,hlen,hintent,hbind,hsig,hcert',hscope',hsubject]
    rfl
  rw [Transport.codeError,hcode]
  rfl

/-- A grant between two parties is refused at check 4, and changes nothing. -/
theorem Separated.refused (h : Separated K d envBytes hooks nowMs s trusted env grant approverCert subjectCert) :
    d.traced K envBytes hooks nowMs s=(.error (.err (.Verify .BadSubjectCert)),d,(s,[])) := by
  have hbody : env.bodyType=bodyGrant := h.authorised.bodyType
  have hpanic : ¬Panics K env grant (d.grantContext hooks.traced (s,[]) approverCert nowMs) := by
    intro hp
    exact hp.1.subjectRole h.noAgent
  have hcode : Transport.codeError K env grant (d.grantContext hooks.traced (s,[]) approverCert nowMs)=
      some .BadSubjectCert := h.codeError
  have hknown : hooks.traced.certForSender env.sender=some approverCert := h.approver
  rw [Dispatch.traced,dispatch_of_grant h.signed hbody,Dispatch.dispatchGrant,h.parses]
  simp only [hknown]
  rw [verifyGrantThen_eq _ _ _ _ _ _ hpanic,hcode]

/-- The certificate of the sender stands for the approver and for the subject: a grant
that passes every check with it in both places is executed once, and a grant between
two parties with one role each is refused at check 4. -/
theorem sender_cert_stands_for_both (K : Crypto) (d : Dispatch) (envBytes : Bytes) (hooks : Hooks σ)
    (nowMs : UInt64) (s : σ) :
    (∀grant,Executes K d envBytes hooks nowMs s grant → ExecutesOnce K d envBytes hooks nowMs s grant) ∧
    ∀trusted env grant approverCert subjectCert,
      Separated K d envBytes hooks nowMs s trusted env grant approverCert subjectCert →
        d.traced K envBytes hooks nowMs s=(.error (.err (.Verify .BadSubjectCert)),d,(s,[])) := by
  constructor
  · intro grant h
    rw [ExecutesOnce,traced_of_executes h]
    exact ⟨⟨_,rfl⟩,rfl⟩
  · intro trusted env grant approverCert subjectCert h
    exact h.refused

end Separation

def approverKey : Bytes := beBytes 32 0xed4928c628d1c2c6eae90338905995612959273a5c63f93636c14614ac8737d1

def firstCa : Bytes := beBytes 32 0x6e7a1cdd29b0b78fd13af4c5598feff4ef2a97166e3ca6f2e4fbfccd80505bf1

def secondCa : Bytes := beBytes 32 0xca93ac1705187071d67b83c7ff0efe8108e8ec4530575d7726879333dbdabe7c

def sampleCas : List Bytes := [firstCa,secondCa]

/-- The bytes of a certificate that its CAs sign. -/
def certTbs (c : Cert) : Bytes :=
  (encodeCert { c with caSigs := [] }).dropLast

def unsignedCert (key : Bytes) (roleBits caSigCount : UInt8) : Cert where
  version := 3
  roleBits
  sigPubkey := key
  kexPubkey := List.replicate 32 0
  notBefore := 0
  notAfter := 1030000
  name := []
  scopeCount := 1
  scopeIds := resourceDigest.take lenScopeId
  caSigCount
  caSigs := []
  tbs := []

def approverFirstSig : Bytes :=
  beBytes 32 0xac369e7783cdea320ee94403a465166cc126291801e2d4d3c2935269548a1280++
    beBytes 32 0x6bcc0e6cc3fd7243e565c1595d5304e54cc39a1de225a5ad3a49c59ca536960d

def approverSecondSig : Bytes :=
  beBytes 32 0x164502706f0e65d23037bd4a34843c2d99b6f9980bd7fd444dc821fecad9af32++
    beBytes 32 0x1932b21022bf6a1e69996d84f35db3f8098c241cd67e5a75fc01aab0a09f6908

def agentSig : Bytes :=
  beBytes 32 0x18fc86b95c5371aab32fa732710774368e7582c0f974b71a96866ab9fcd58596++
    beBytes 32 0x419cca33858c87c6201a4f901049b555fbda6d740433b2dc2b5902bb13ee480b

/-- The approver's certificate: one role, and the quorum of two CAs. -/
def approverCert : Cert :=
  let c := unsignedCert approverKey roleApprover 2
  { c with
    tbs := certTbs c
    caSigs := firstCa++approverFirstSig++(secondCa++approverSecondSig) }

/-- The peer's certificate as an agent. -/
def agentCert : Cert :=
  let c := unsignedCert peerKey roleAgent 1
  { c with
    tbs := certTbs c
    caSigs := firstCa++agentSig }

/-- The approver's grant for the peer's intent. -/
def approverGrant : Grant :=
  let g := { unsignedGrant with approver := approverKey }
  { g with
    tbs := encodeGrant g
    sig := beBytes 32 0x8e892194f7244fb05250ecfeb28872ae9d036d93a0adad6690def40cacf99a1c++
      beBytes 32 0xf7c4af5baf47edf16aed9bfed3d61149e71c12e34215b2b131791b7c3960f500 }

def approverEnvelope : Envelope :=
  let e := { unsignedEnvelope 1 bodyGrant (encodeGrant approverGrant) with sender := approverKey }
  { e with
    tbs := encodeEnvelope e
    sig := beBytes 32 0xda581290a26f08bad27952002ef1e8592c8257e0614e4f8bb1608d5c82a28307++
      beBytes 32 0xb2ca769472581b3fabf560134104f8aac16a36f66eb0b3fc546b07cf462e9d00 }

def separateCrypto : Crypto :=
  signing sampleCrypto
    [(approverKey,domainGrant::approverGrant.tbs,approverGrant.sig),
      (approverKey,domainEnvelope::approverEnvelope.tbs,approverEnvelope.sig),
      (firstCa,domainCert::approverCert.tbs,approverFirstSig),
      (secondCa,domainCert::approverCert.tbs,approverSecondSig),
      (firstCa,domainCert::agentCert.tbs,agentSig)]

/-- Callbacks of a caller that knows both parties. -/
def separateHooks : Hooks Unit :=
  { sampleHooks with certForSender := fun sender =>
      if sender=approverKey then some approverCert else if sender=peerKey then some agentCert else none }

theorem separated_sample : Separated separateCrypto pendingDispatch (encodeEnvelope approverEnvelope)
    separateHooks 1000000 () sampleCas approverEnvelope approverGrant approverCert agentCert where
  signed := ⟨by decide +kernel,by decide +kernel⟩
  parses := by decide +kernel
  apart := by decide +kernel
  approver := by decide +kernel
  subject := by decide +kernel
  approverChain := by decide +kernel
  subjectChain := by decide +kernel
  authorised := by
    have hm := (matched_iff separateCrypto approverEnvelope approverGrant
      (pendingDispatch.separateContext separateHooks 1000000 () approverCert agentCert)).mpr
      (by decide +kernel)
    exact ⟨hm,by decide +kernel,rfl⟩
  bounded := by decide +kernel

/-- The grant of one party for another passes every check and is refused. -/
theorem separated_grant_refused : ¬Complete separateCrypto pendingDispatch (encodeEnvelope approverEnvelope)
    separateHooks 1000000 () := by
  intro h
  obtain ⟨o,ho⟩ := (h sampleCas approverEnvelope approverGrant approverCert agentCert separated_sample).1
  rw [separated_sample.refused] at ho
  cases ho

theorem sender_cert_stands_for_both_sample :
    ExecutesOnce sampleCrypto pendingDispatch (encodeEnvelope grantEnvelope) sampleHooks 1000000 () sampleGrant ∧
      pendingDispatch.traced separateCrypto (encodeEnvelope approverEnvelope) separateHooks 1000000 ()=
        (.error (.err (.Verify .BadSubjectCert)),pendingDispatch,((),[])) := by
  have hx : sampleGrant∈pendingDispatch.executed sampleCrypto (encodeEnvelope grantEnvelope) sampleHooks
      1000000 () := by decide +kernel
  constructor
  · exact (sender_cert_stands_for_both sampleCrypto pendingDispatch (encodeEnvelope grantEnvelope)
      sampleHooks 1000000 ()).1 sampleGrant (mem_executed_iff.mp hx)
  · exact (sender_cert_stands_for_both separateCrypto pendingDispatch (encodeEnvelope approverEnvelope)
      separateHooks 1000000 ()).2 sampleCas approverEnvelope approverGrant approverCert agentCert
      separated_sample

end Bolina.Transport
