import Bolina.Daemon.Process
import Bolina.Framework.GuardedRun
import Bolina.Transport.Separation

namespace Bolina

open Codec Intent State Transport Control GuardedRun BigEndian

/-- Every signature of the certificate is by a trusted key, and it is in force. -/
structure CertValid (K : Crypto) (cert : Cert) (trusted : List Bytes) (nowMs : UInt64) : Prop where
  signed : ∀i < cert.caSigCount.toNat,CaSigned K (certView cert) trusted i
  inForce : InForce (certView cert) nowMs

/-- A grant that passes passes with two valid certificates. -/
def ValidAtUse (K : Crypto) (trusted : List Bytes) (env : Envelope) (grant : Grant) (ctx : GrantContext) : Prop :=
  ∀execute : Grant → Unit → EffectOutcome × Unit,(∃o,(verifyGrantThen K env grant ctx execute ()).1=.ok o) →
    CertValid K ctx.approverCert trusted ctx.nowMs ∧ CertValid K ctx.subjectCert trusted ctx.nowMs

/-- What the verifier asks of a certificate. -/
structure CertAccepted (K : Crypto) (cert : Cert) (role : UInt8) (key : Bytes) (grant : Grant)
    (ctx : GrantContext) : Prop where
  role : cert.roleBits&&&role≠0
  key : cert.sigPubkey=key
  live : ctx.isRevoked cert.sigPubkey=false
  scope : 3 ≤ cert.version → scopeCoversResource K cert grant.resourceId=true

section Verifier

variable {σ : Type} {K : Crypto} {env : Envelope} {grant : Grant} {ctx : GrantContext}

theorem accepted_of_ok (execute : Grant → σ → EffectOutcome × σ) (s : σ) (o : EffectOutcome)
    (h : (verifyGrantThen K env grant ctx execute s).1=.ok o) :
    CertAccepted K ctx.approverCert roleApprover grant.approver grant ctx ∧
      CertAccepted K ctx.subjectCert roleAgent grant.subject grant ctx := by
  have hm : Matched K env grant ctx := by
    by_contra hm
    have hp : ¬Panics K env grant ctx := fun hp => hm hp.1
    rw [verifyGrantThen_eq K env grant ctx execute s hp] at h
    cases he : codeError K env grant ctx with
    | some e => simp [he] at h
    | none => exact hm ((authorised_iff_codeError K env grant ctx).mpr he).toMatched
  exact ⟨⟨hm.approverRole,hm.approverKey,hm.approverLive,hm.approverScope⟩,
    ⟨hm.subjectRole,hm.subjectKey,hm.subjectLive,hm.subjectScope⟩⟩

end Verifier

section Run

variable {K : Crypto} {caPubs : List Bytes}

theorem foldl_none (steps : List ProcessStep) : steps.foldl (next K caPubs) none=none := by
  induction steps with
  | nil => rfl
  | cons x steps ih => exact ih

/-- A stored certificate was there at the start or is stored by a step of the run. -/
theorem run_certs (steps : List ProcessStep) (p p' : Process)
    (h : steps.foldl (next K caPubs) (some p)=some p') (kw : Bytes × Bytes) (hkw : kw∈p'.daemon.certs) :
    kw∈p.daemon.certs ∨ ∃x∈steps,Binds K caPubs kw x := by
  induction steps generalizing p with
  | nil =>
    cases h
    exact Or.inl hkw
  | cons x steps ih =>
    rw [List.foldl_cons] at h
    cases hx : next K caPubs (some p) x with
    | none =>
      rw [hx,foldl_none] at h
      cases h
    | some p₁ =>
      rw [hx] at h
      obtain hstart|⟨y,hy,hb⟩ := ih p₁ h
      · cases (step_certs x hx).2 kw hstart with
        | inl hold => exact Or.inl hold
        | inr hnew => exact Or.inr ⟨x,List.mem_cons_self,hnew⟩
      · exact Or.inr ⟨y,List.mem_cons_of_mem _ hy,hb⟩

/-- A certificate that the daemon knows was presented in its run, under the key it is
known by, and was valid then. -/
theorem presented_of_known (sigPub : Bytes) (resolver : Resolver) (ledger : Option GrantLedger) (disk : Disk)
    (steps : List ProcessStep) (p : Process)
    (h : steps.foldl (next K caPubs) (some (Process.boot K sigPub resolver ledger disk))=some p)
    (sender : Bytes) (c : Cert) (hc : p.daemon.certForSender sender=some c) :
    c.sigPubkey=sender ∧ ∃x∈steps,Presents K caPubs c x := by
  obtain ⟨kw,hkw,hkey,hp⟩ := certForSender_mem p.daemon sender c hc
  obtain hboot|⟨x,hx,cert,hcert,hname,hpresents⟩ := run_certs steps _ p h kw hkw
  · cases hboot
  · rw [hp] at hcert
    cases hcert
    exact ⟨hname.symm.trans hkey,x,hx,hpresents⟩

theorem executes_nothing (sigPub : Bytes) (resolver : Resolver) (ledger : Option GrantLedger) (disk : Disk)
    (steps : List ProcessStep) :
    Meets (next K caPubs) (fun o x => ∀p,o=some p → p.executed K x=[])
      (some (Process.boot K sigPub resolver ledger disk)) steps := by
  refine @meets_of_invariant _ _ (next K caPubs) _ (Running K caPubs) running_next ?_ _ steps
    (running_boot sigPub resolver ledger disk)
  intro o x h p hp
  obtain ⟨p',hp',hs⟩ := h
  rw [hp'] at hp
  cases hp
  exact hs.executed x

end Run

/-- The verifier asks role, key, revocation and scope of the two certificates. Their
signatures and their times are asked once, when a session is bound: what the daemon
knows of a sender was presented in its run and valid then. No effect is executed. -/
theorem certs_valid_when_bound (K : Crypto) (caPubs : List Bytes) :
    (∀(σ : Type) (env : Envelope) (grant : Grant) (ctx : GrantContext)
      (execute : Grant → σ → EffectOutcome × σ) (s : σ) (o : EffectOutcome),
      (verifyGrantThen K env grant ctx execute s).1=.ok o →
        CertAccepted K ctx.approverCert roleApprover grant.approver grant ctx ∧
          CertAccepted K ctx.subjectCert roleAgent grant.subject grant ctx) ∧
    ∀(sigPub : Bytes) (resolver : Resolver) (ledger : Option GrantLedger) (disk : Disk)
      (steps : List ProcessStep),
      (∀p,steps.foldl (next K caPubs) (some (Process.boot K sigPub resolver ledger disk))=some p →
        ∀sender c,p.daemon.certForSender sender=some c →
          c.sigPubkey=sender ∧ ∃x∈steps,Presents K caPubs c x) ∧
      Meets (next K caPubs) (fun o x => ∀p,o=some p → p.executed K x=[])
        (some (Process.boot K sigPub resolver ledger disk)) steps := by
  constructor
  · intro σ env grant ctx execute s o h
    exact accepted_of_ok execute s o h
  · intro sigPub resolver ledger disk steps
    refine ⟨?_,executes_nothing sigPub resolver ledger disk steps⟩
    intro p h sender c hc
    exact presented_of_known sigPub resolver ledger disk steps p h sender c hc

/-- The grant of the approver 10000 ms after both certificates ended. -/
def expiredContext : GrantContext :=
  pendingDispatch.separateContext separateHooks 1040000 () approverCert agentCert

theorem expired_certs_pass : ¬ValidAtUse separateCrypto sampleCas approverEnvelope approverGrant expiredContext := by
  intro h
  have hok : (verifyGrantThen separateCrypto approverEnvelope approverGrant expiredContext
      (fun _ s => (.Fired,s)) ()).1=.ok .Fired := by decide +kernel
  have hforce := (h (fun _ s => (.Fired,s)) ⟨.Fired,hok⟩).1.inForce.2
  revert hforce
  decide +kernel

def sampleHandshake : Bytes := List.replicate 32 0x44

def bindingSig : Bytes :=
  beBytes 32 0xfe053eb316e649c5354463a17b87c43135ed68872d461c9c2fda89757e76c9a9++
    beBytes 32 0x46ef5e8c89f04b3151f7f376495934425571388050cf0b98a16881f98e41dc0a

/-- The peer binds its session with its certificate. -/
def peerBinding : ProcessStep :=
  .binding (beBytes 2 (encodeCert agentCert).length++encodeCert agentCert++bindingSig) sampleHandshake
    (some (List.replicate 32 0)) 1000000

def bindingCrypto : Crypto := signing separateCrypto [(peerKey,domainBinding::sampleHandshake,bindingSig)]

def unboundProcess : Process := Process.boot bindingCrypto nodeKey sampleDispatch.resolver none ⟨[],none,[]⟩

theorem certs_valid_when_bound_sample :
    CertAccepted separateCrypto approverCert roleApprover approverKey approverGrant expiredContext ∧
      ∃x∈[peerBinding],Presents bindingCrypto sampleCas agentCert x := by
  constructor
  · exact ((certs_valid_when_bound separateCrypto sampleCas).1 Unit approverEnvelope approverGrant expiredContext
      (fun _ s => (.Fired,s)) () .Fired (by decide +kernel)).1
  · obtain ⟨p,hp,_⟩ := running_next (some unboundProcess) peerBinding
      (@running_boot bindingCrypto sampleCas nodeKey sampleDispatch.resolver none ⟨[],none,[]⟩)
    have hknown : (next bindingCrypto sampleCas (some unboundProcess) peerBinding).map
        (fun p => p.daemon.certForSender peerKey)=some (some agentCert) := by decide +kernel
    rw [hp] at hknown
    have hc : p.daemon.certForSender peerKey=some agentCert := Option.some.inj hknown
    exact (((certs_valid_when_bound bindingCrypto sampleCas).2 nodeKey sampleDispatch.resolver none ⟨[],none,[]⟩
      [peerBinding]).1 p hp peerKey agentCert hc).2

end Bolina
