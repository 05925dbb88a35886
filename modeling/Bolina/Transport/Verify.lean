import Bolina.State.Intent

namespace Bolina.Transport

open Codec Intent

inductive VerifyError where
  | BadVersion
  | BadEnvelopeBinding
  | BadSignature
  | MalformedKey
  | BadApproverCert
  | BadSubjectCert
  | ApproverRevoked
  | ApproverOutOfScope
  | SubjectRevoked
  | SubjectOutOfScope
  | WrongExecutor
  | WrongSubject
  | NoMatchingIntent
  | WrongResource
  | ActionDigestMismatch
  | Expired
  | AlreadyConsumed
  | WrongBodyType
  | SeqWindowStale
  | Equivocation
  | UnknownParents
  | BadControlBody
  deriving DecidableEq,Repr

/-- How a call that does not return a value ends: with an error value, or with the
panic of an arithmetic overflow, which the build profile checks for. -/
inductive Abort (ε : Type) where
  | err (e : ε)
  | panic
  deriving DecidableEq,Repr

abbrev Verdict := Except (Abort VerifyError)

def refuse (check : Option VerifyError) : Verdict Unit :=
  match check with
  | some e => .error (.err e)
  | none => .ok ()

def refuseIf (b : Prop) [Decidable b] (e : VerifyError) : Verdict Unit :=
  if b then .error (.err e) else .ok ()

def orRefuse {α : Type} (o : Option α) (e : VerifyError) : Verdict α :=
  match o with
  | some a => .ok a
  | none => .error (.err e)

def add64 (a b : UInt64) : Verdict UInt64 :=
  if a.toNat+b.toNat<2^64 then .ok (a+b) else .error .panic

def mul64 (a b : UInt64) : Verdict UInt64 :=
  if a.toNat*b.toNat<2^64 then .ok (a*b) else .error .panic

def verifySignedErr (K : Crypto) (tag : UInt8) (tbs sig pubkey : Bytes) : Option VerifyError :=
  if pubkey.length≠lenPubkey then some .MalformedKey
  else if sig.length≠lenSig then some .BadSignature
  else if verifySigned K tag tbs sig pubkey then none
  else some .BadSignature

def verifyEnvelope (K : Crypto) (env : Envelope) : Option VerifyError :=
  verifySignedErr K domainEnvelope env.tbs env.sig env.sender

def actionDigest (K : Crypto) (action : Bytes) : Bytes := (K.blake2s action).toList

def checkExpiry (notAfter nowMs firstReceiptMs tMaxS tRecvS : UInt64) : Verdict Unit := do
  let tMaxMs ← mul64 tMaxS 1000
  let tRecvMs ← mul64 tRecvS 1000
  refuseIf (notAfter ≤ nowMs) .Expired
  let bound ← add64 firstReceiptMs tMaxMs
  refuseIf (bound<notAfter) .Expired
  let bound ← add64 firstReceiptMs tRecvMs
  refuseIf (bound<nowMs) .Expired

def senderMaxAction : Nat := 512

structure SenderEntry where
  intentId : FixedBytes 16
  sender : FixedBytes 32
  action : FixedBytes 512
  actionLen : Nat
  lenLe : actionLen ≤ senderMaxAction
  deriving DecidableEq

def SenderEntry.actionBytes (e : SenderEntry) : Bytes := e.action.toList.take e.actionLen

structure SenderTable where
  entries : List SenderEntry
  deriving DecidableEq

def SenderTable.new : SenderTable := ⟨[]⟩

def SenderTable.lookup (t : SenderTable) (intentId : Bytes) : Option SenderEntry :=
  t.entries.find? (fun e => e.intentId.toList==intentId)

structure GrantContext where
  ownPubkey : Bytes
  approverCert : Cert
  subjectCert : Cert
  intentTable : Table
  senderTable : SenderTable
  nowMs : UInt64
  firstReceiptMs : UInt64
  tMaxS : UInt64
  tRecvS : UInt64
  alreadyConsumed : Bytes → UInt64 → UInt64 → Bool
  isRevoked : Bytes → Bool

inductive EffectOutcome where
  | Fired
  | Refused
  deriving DecidableEq,Repr

def certCarriesScope (cert : Cert) (scope : Bytes) : Bool :=
  (List.range cert.scopeCount.toNat).any (fun i =>
    let off := i*lenScopeId
    decide (off+lenScopeId ≤ cert.scopeIds.length) && (cert.scopeIds.drop off).take lenScopeId==scope)

/-- The end of the prefix that stops right behind the last slash before `n`. -/
def slashEnd (resourceId : Bytes) : Nat → Nat
  | 0 => 0
  | n+1 => if resourceId.getD n 0≠0x2f then slashEnd resourceId n else n+1

/-- The walk from the full path to the root. `stop` gets smaller on every pass, so
the length of the path is enough fuel. -/
def scopeLoop (K : Crypto) (cert : Cert) (resourceId : Bytes) : Nat → Nat → Bool
  | 0,_ => false
  | fuel+1,stop =>
    if stop=0 then false
    else if certCarriesScope cert ((K.blake2s (resourceId.take stop)).toList.take lenScopeId) then true
    else
      let newEnd := slashEnd resourceId stop
      if newEnd=0 then false else scopeLoop K cert resourceId fuel (newEnd-1)

def scopeCoversResource (K : Crypto) (cert : Cert) (resourceId : Bytes) : Bool :=
  scopeLoop K cert resourceId resourceId.length resourceId.length

/-- The checks of `verify_grant_then`, in the order of the code. -/
def grantChecks (K : Crypto) (env : Envelope) (grant : Grant) (ctx : GrantContext) : Verdict Unit := do
  refuseIf (grant.version≠2) .BadVersion
  -- the two records are looked up here, before the checks that do not need them
  let intentIdArr ← orRefuse
    (if grant.intentId.length=lenIntentId then some (fixed 16 grant.intentId) else none)
    .BadEnvelopeBinding
  let intentEntry ← orRefuse (ctx.intentTable.pendingEntry intentIdArr) .NoMatchingIntent
  let senderEntry ← orRefuse (ctx.senderTable.lookup grant.intentId) .NoMatchingIntent
  refuseIf (env.bodyType≠bodyGrant) .BadEnvelopeBinding
  refuseIf (env.sender≠grant.approver) .BadEnvelopeBinding
  refuse (verifySignedErr K domainGrant grant.tbs grant.sig grant.approver)
  refuseIf (ctx.approverCert.roleBits&&&roleApprover=0) .BadApproverCert
  refuseIf (ctx.approverCert.sigPubkey≠grant.approver) .BadApproverCert
  refuseIf (ctx.isRevoked ctx.approverCert.sigPubkey=true) .ApproverRevoked
  refuseIf (3 ≤ ctx.approverCert.version ∧ scopeCoversResource K ctx.approverCert grant.resourceId=false)
    .ApproverOutOfScope
  refuseIf (ctx.subjectCert.roleBits&&&roleAgent=0) .BadSubjectCert
  refuseIf (ctx.subjectCert.sigPubkey≠grant.subject) .BadSubjectCert
  refuseIf (ctx.isRevoked ctx.subjectCert.sigPubkey=true) .SubjectRevoked
  refuseIf (3 ≤ ctx.subjectCert.version ∧ scopeCoversResource K ctx.subjectCert grant.resourceId=false)
    .SubjectOutOfScope
  refuseIf (grant.executor≠ctx.ownPubkey) .WrongExecutor
  refuseIf (grant.subject≠senderEntry.sender.toList) .WrongSubject
  refuseIf (grant.intentId≠intentEntry.intentId.toList) .NoMatchingIntent
  refuseIf (grant.resourceId≠intentEntry.resource) .WrongResource
  refuseIf (grant.actionDigest≠actionDigest K senderEntry.actionBytes) .ActionDigestMismatch
  checkExpiry grant.notAfter ctx.nowMs ctx.firstReceiptMs ctx.tMaxS ctx.tRecvS
  refuseIf (ctx.alreadyConsumed grant.grantId grant.notAfter ctx.nowMs=true) .AlreadyConsumed

/-- The callback runs in the frame of the checks, on a state of its own. -/
def verifyGrantThen {σ : Type} (K : Crypto) (env : Envelope) (grant : Grant) (ctx : GrantContext)
    (execute : Grant → σ → EffectOutcome × σ) (s : σ) : Verdict EffectOutcome × σ :=
  match grantChecks K env grant ctx with
  | .error a => (.error a,s)
  | .ok _ =>
    match execute grant s with
    | (outcome,s') => (.ok outcome,s')

/-- `on_rejected` gets the intent id of a refusal that was applied. -/
def verifyRefusalThen {σ : Type} (K : Crypto) (env : Envelope) (refusal : Refusal) (approverCert : Cert)
    (intentTable : Table) (onRejected : Bytes → σ → σ) (s : σ) :
    Except VerifyError Unit × Table × σ :=
  if env.bodyType≠bodyRefusal then (.error .BadEnvelopeBinding,intentTable,s)
  else
    match verifySignedErr K domainRefusal refusal.tbs refusal.sig env.sender with
    | some e => (.error e,intentTable,s)
    | none =>
      if approverCert.roleBits&&&roleApprover=0 then (.error .BadApproverCert,intentTable,s)
      else if approverCert.sigPubkey≠env.sender then (.error .BadApproverCert,intentTable,s)
      else if refusal.intentId.length≠lenIntentId then (.error .BadEnvelopeBinding,intentTable,s)
      else
        match intentTable.applyRefusal (fixed 16 refusal.intentId) with
        | (.Rejected,table) => (.ok (),table,onRejected refusal.intentId s)
        | (.NoMatch,table) => (.ok (),table,s)

/-- The subject's certificate expiry at the front of a Revoke body; a body without the
field is never pruned. -/
def revokePruneExpiry (body : Bytes) : UInt64 :=
  if 8 ≤ body.length then BigEndian.be64 (body.take 8) else UInt64.ofNat (2^64-1)

end Bolina.Transport
