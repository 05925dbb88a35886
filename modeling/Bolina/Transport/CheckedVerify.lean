import Bolina.Codec.CheckedCodec
import Bolina.Transport.Binding
import Bolina.Transport.CheckedNoise
import Bolina.Transport.GrantVerdict

namespace Bolina.Checked

open BigEndian Panic Transport
open Codec (Crypto Envelope Grant Refusal Cert lenPubkey lenSig lenIntentId lenScopeId lenCaKey bodyGrant bodyRefusal
  domainEnvelope domainGrant domainRefusal roleAgent roleApprover)
open Intent (Table Entry)

section Signatures

variable (K : Crypto)

/-- The buffer for the tag and the signed bytes is sized before they are joined. -/
def verifySigned (domainTag : UInt8) (tbs sig signer : Bytes) : Option Bool := do
  if signer.length=lenPubkey ∧ sig.length=lenSig then
    let _capacity ← add 1 tbs.length
    return K.ed25519 signer (domainTag::tbs) sig
  else return false

def verifySignedErr (tag : UInt8) (tbs sig pubkey : Bytes) : Option (Option VerifyError) := do
  if pubkey.length≠lenPubkey then return some .MalformedKey
  else if sig.length≠lenSig then return some .BadSignature
  else if ← verifySigned K tag tbs sig pubkey then return none
  else return some .BadSignature

def verifyEnvelope (env : Envelope) : Option (Option VerifyError) :=
  verifySignedErr K domainEnvelope env.tbs env.sig env.sender

/-- The loop over the packed pairs of a key and its signature. -/
def caSigLoop (cert : CertView) (trusted : List Bytes) : List Nat → Option (Except CertChainError Unit)
  | [] => some (.ok ())
  | i::rest => do
    let off ← mul i pairLen
    let stop ← add off pairLen
    if cert.caSigs.length < stop then return .error .BadCaSignature
    else
      let mid ← add off lenCaKey
      let caKey ← range cert.caSigs off mid
      let caSig ← range cert.caSigs mid stop
      if (← verifySigned K domainCert cert.tbs caSig caKey)=false then return .error .BadCaSignature
      else if inTrustSet caKey trusted=false then return .error .UntrustedCa
      else caSigLoop cert trusted rest

def validateCertChain (cert : CertView) (trusted : List Bytes) : Option (Except CertChainError Unit) :=
  match checkRoleConstraints cert.roleBits with
  | .error e => some (.error e)
  | .ok _ =>
    if cert.roleBits&&&roleApprover≠0 ∧ cert.caSigCount < approverQuorum then some (.error .ApproverNoQuorum)
    else if cert.roleBits&&&(roleApprover|||roleExecutor)≠0 ∧
        maxPrivilegedLifetimeMs < cert.notAfter.toNat-cert.notBefore.toNat then some (.error .CertTooLongLived)
    else caSigLoop K cert trusted (List.range cert.caSigCount)

def validateCert (cert : CertView) (trusted : List Bytes) (nowMs : UInt64) : Option (Except BindingError Unit) := do
  match ← validateCertChain K cert trusted with
  | .error e => return .error e.toBinding
  | .ok _ => if nowMs < cert.notBefore ∨ cert.notAfter ≤ nowMs then return .error .CertExpired else return .ok ()

def bindSession (cert : CertView) (bindingSig handshakeHash remoteKexPubkey : Bytes) (trusted : List Bytes)
    (nowMs : UInt64) : Option (Except BindingError Unit) := do
  match ← validateCert K cert trusted nowMs with
  | .error e => return .error e
  | .ok _ =>
    if cert.kexPubkey≠remoteKexPubkey then return .error .KexPubkeyMismatch
    else if (← verifySigned K domainBinding handshakeHash bindingSig cert.sigPubkey)=false then
      return .error .BadBindingSig
    else return .ok ()

end Signatures

section Scopes

def carriesLoop (cert : Cert) (scope : Bytes) : List Nat → Option Bool
  | [] => some false
  | i::rest => do
    let off ← mul i lenScopeId
    let stop ← add off lenScopeId
    if stop ≤ cert.scopeIds.length then
      if (← range cert.scopeIds off stop)=scope then return true else carriesLoop cert scope rest
    else carriesLoop cert scope rest

def certCarriesScope (cert : Cert) (scope : Bytes) : Option Bool :=
  carriesLoop cert scope (List.range cert.scopeCount.toNat)

/-- The end of the prefix that stops right behind the last slash before `n`. -/
def slashEnd (resourceId : Bytes) : Nat → Option Nat
  | 0 => some 0
  | n+1 => do
    let last ← sub (n+1) 1
    if (← index resourceId last)≠0x2f then slashEnd resourceId n else return n+1

/-- The walk from the full path to the root; `none` when the fuel ends before it does. -/
def scopeLoop (K : Crypto) (cert : Cert) (resourceId : Bytes) : Nat → Nat → Option Bool
  | 0,stop => if stop=0 then some false else none
  | fuel+1,stop => do
    if stop=0 then return false
    else
      let front ← range resourceId 0 stop
      let scope ← range (K.blake2s front).toList 0 lenScopeId
      if ← certCarriesScope cert scope then return true
      else
        let newEnd ← slashEnd resourceId stop
        if newEnd=0 then return false else scopeLoop K cert resourceId fuel (← sub newEnd 1)

def scopeCoversResource (K : Crypto) (cert : Cert) (resourceId : Bytes) : Option Bool :=
  scopeLoop K cert resourceId resourceId.length resourceId.length

/-- Scopes count from certificate version 3 on. -/
def scopeHolds (K : Crypto) (cert : Cert) (resourceId : Bytes) : Option Bool :=
  if 3 ≤ cert.version then scopeCoversResource K cert resourceId else some true

end Scopes

section Grants

/-- What a grant is checked against; the hook may panic. -/
structure GrantContext where
  ownPubkey : Bytes
  approverCert : Cert
  subjectCert : Cert
  intentTable : Table
  senderTable : SenderTable
  nowMs : UInt64
  firstReceiptMs : UInt64
  tMaxS : UInt64
  tRecvS : UInt64
  alreadyConsumed : Bytes → UInt64 → UInt64 → Option Bool
  isRevoked : Bytes → Bool

/-- A check of a grant: it may refuse, and it may panic. -/
abbrev Checks := ExceptT VerifyError Option

def refuse (check : Option VerifyError) : Checks Unit :=
  match check with
  | some e => throw e
  | none => pure ()

def refuseIf (b : Prop) [Decidable b] (e : VerifyError) : Checks Unit := if b then throw e else pure ()

def orRefuse {α : Type} (o : Option α) (e : VerifyError) : Checks α :=
  match o with
  | some a => pure a
  | none => throw e

/-- An operation inside the checks. -/
def inRange {α : Type} (o : Option α) : Checks α := ExceptT.mk (o.map Except.ok)

def checkExpiry (notAfter nowMs firstReceiptMs tMaxS tRecvS : UInt64) : Checks Unit := do
  let tMaxMs ← inRange (Panic.mul64 tMaxS 1000)
  let tRecvMs ← inRange (Panic.mul64 tRecvS 1000)
  refuseIf (notAfter ≤ nowMs) .Expired
  let bound ← inRange (Panic.add64 firstReceiptMs tMaxMs)
  refuseIf (bound<notAfter) .Expired
  let bound ← inRange (Panic.add64 firstReceiptMs tRecvMs)
  refuseIf (bound<nowMs) .Expired

def actionDigest (K : Crypto) (action : Bytes) : Option Bytes := copy (zeros 32) (K.blake2s action).toList

def grantChecks (K : Crypto) (env : Envelope) (grant : Grant) (ctx : GrantContext) : Checks Unit := do
  refuseIf (grant.version≠2) .BadVersion
  let intentIdArr ← orRefuse
    (if grant.intentId.length=lenIntentId then some (fixed 16 grant.intentId) else none)
    .BadEnvelopeBinding
  let intentIdx ← orRefuse (ctx.intentTable.matchForGrant intentIdArr) .NoMatchingIntent
  let intentEntry ← inRange (index ctx.intentTable.entries intentIdx)
  let senderEntry ← orRefuse (ctx.senderTable.lookup grant.intentId) .NoMatchingIntent
  refuseIf (env.bodyType≠bodyGrant) .BadEnvelopeBinding
  refuseIf (env.sender≠grant.approver) .BadEnvelopeBinding
  refuse (← inRange (verifySignedErr K domainGrant grant.tbs grant.sig grant.approver))
  refuseIf (ctx.approverCert.roleBits&&&roleApprover=0) .BadApproverCert
  refuseIf (ctx.approverCert.sigPubkey≠grant.approver) .BadApproverCert
  refuseIf (ctx.isRevoked ctx.approverCert.sigPubkey=true) .ApproverRevoked
  refuseIf ((← inRange (scopeHolds K ctx.approverCert grant.resourceId))=false) .ApproverOutOfScope
  refuseIf (ctx.subjectCert.roleBits&&&roleAgent=0) .BadSubjectCert
  refuseIf (ctx.subjectCert.sigPubkey≠grant.subject) .BadSubjectCert
  refuseIf (ctx.isRevoked ctx.subjectCert.sigPubkey=true) .SubjectRevoked
  refuseIf ((← inRange (scopeHolds K ctx.subjectCert grant.resourceId))=false) .SubjectOutOfScope
  refuseIf (grant.executor≠ctx.ownPubkey) .WrongExecutor
  refuseIf (grant.subject≠senderEntry.sender.toList) .WrongSubject
  refuseIf (grant.intentId≠intentEntry.intentId.toList) .NoMatchingIntent
  let resource ← inRange (range intentEntry.resourceId.toList 0 intentEntry.resourceLen)
  refuseIf (grant.resourceId≠resource) .WrongResource
  let action ← inRange (range senderEntry.action.toList 0 senderEntry.actionLen)
  refuseIf (grant.actionDigest≠(← inRange (actionDigest K action))) .ActionDigestMismatch
  checkExpiry grant.notAfter ctx.nowMs ctx.firstReceiptMs ctx.tMaxS ctx.tRecvS
  refuseIf ((← inRange (ctx.alreadyConsumed grant.grantId grant.notAfter ctx.nowMs))=true) .AlreadyConsumed

def verifyGrantThen {σ : Type} (K : Crypto) (env : Envelope) (grant : Grant) (ctx : GrantContext)
    (execute : Grant → σ → Option (EffectOutcome × σ)) (s : σ) : Option (Except VerifyError EffectOutcome × σ) := do
  match ← ExceptT.run (grantChecks K env grant ctx) with
  | .error e => return (.error e,s)
  | .ok _ =>
    let (outcome,s') ← execute grant s
    return (.ok outcome,s')

end Grants

section Signatures

variable {K : Crypto} {cert : CertView}

theorem verifySigned_eq {tbs : Bytes} (h : tbs.length < sliceLimit) (tag : UInt8) (sig signer : Bytes) :
    verifySigned K tag tbs sig signer=some (Codec.verifySigned K tag tbs sig signer) := by
  rw [sliceLimit] at h
  rw [verifySigned,Codec.verifySigned,add_eq (by rw [wordLimit]; omega)]
  by_cases hw : signer.length=lenPubkey ∧ sig.length=lenSig
  · rw [if_pos hw,beq_iff_eq.mpr hw.1,beq_iff_eq.mpr hw.2]
    rfl
  · have hf : (signer.length==lenPubkey && sig.length==lenSig)=false := by
      rw [Bool.eq_false_iff]
      simpa using hw
    rw [if_neg hw,hf]
    rfl

theorem verifySignedErr_eq {tbs : Bytes} (h : tbs.length < sliceLimit) (tag : UInt8) (sig pubkey : Bytes) :
    verifySignedErr K tag tbs sig pubkey=some (Transport.verifySignedErr K tag tbs sig pubkey) := by
  rw [verifySignedErr,Transport.verifySignedErr,verifySigned_eq h]
  simp only [Option.bind_eq_bind,Option.bind_some]
  split_ifs <;> rfl

theorem verifyEnvelope_eq {env : Envelope} (h : env.tbs.length < sliceLimit) :
    verifyEnvelope K env=some (Transport.verifyEnvelope K env) := verifySignedErr_eq h _ _ _

/-- The offsets of the pairs stay in range, since a certificate counts them in one byte. -/
theorem caSigLoop_eq (h : cert.tbs.length < sliceLimit) (trusted : List Bytes) (is : List Nat)
    (hi : ∀i∈is,i < 256) : caSigLoop K cert trusted is=some (Transport.caSigLoop K cert trusted is) := by
  induction is with
  | nil => rfl
  | cons i is ih =>
    have hlt := hi i List.mem_cons_self
    have hrest := ih (fun j hj => hi j (List.mem_cons_of_mem _ hj))
    have hpair : pairLen=lenCaKey+lenCaSig := rfl
    have hkey : lenCaKey=32 := rfl
    have hsig : lenCaSig=64 := rfl
    rw [caSigLoop,Transport.caSigLoop,mul_eq (by rw [wordLimit,hpair,hkey,hsig]; omega)]
    simp only [Option.bind_eq_bind,Option.bind_some]
    rw [add_eq (by rw [wordLimit,hpair,hkey,hsig]; omega)]
    simp only [Option.bind_some]
    by_cases hshort : cert.caSigs.length < i*pairLen+pairLen
    · rw [if_pos hshort,if_pos hshort]
      rfl
    have hstop : i*pairLen+pairLen=(i*pairLen+lenCaKey)+lenCaSig := by rw [hpair,Nat.add_assoc]
    rw [if_neg hshort,if_neg hshort,add_eq (by rw [wordLimit,hpair,hkey,hsig]; omega)]
    simp only [Option.bind_some]
    rw [range_add (by omega),hstop,range_add (by omega)]
    simp only [Option.bind_some,verifySigned_eq h,hrest]
    split_ifs <;> rfl

theorem validateCertChain_eq (h : cert.tbs.length < sliceLimit) (hc : cert.caSigCount ≤ 256) (trusted : List Bytes) :
    validateCertChain K cert trusted=some (Transport.validateCertChain K cert trusted) := by
  rw [validateCertChain,Transport.validateCertChain]
  cases checkRoleConstraints cert.roleBits with
  | error e => rfl
  | ok _ =>
    dsimp only
    rw [caSigLoop_eq h trusted _ (fun i hi => (List.mem_range.mp hi).trans_le hc)]
    split_ifs <;> rfl

theorem bindSession_eq (h : cert.tbs.length < sliceLimit) (hc : cert.caSigCount ≤ 256)
    {handshakeHash : Bytes} (hh : handshakeHash.length < sliceLimit) (bindingSig kex : Bytes) (trusted : List Bytes)
    (now : UInt64) : bindSession K cert bindingSig handshakeHash kex trusted now=
      some (Transport.bindSession K cert bindingSig handshakeHash kex trusted now) := by
  have hv : validateCert K cert trusted now=some (Transport.validateCert K cert trusted now) := by
    rw [validateCert,Transport.validateCert,validateCertChain_eq h hc]
    simp only [Option.bind_eq_bind,Option.bind_some]
    cases Transport.validateCertChain K cert trusted with
    | error e => rfl
    | ok _ =>
      dsimp only
      split_ifs <;> rfl
  rw [bindSession,Transport.bindSession,hv]
  simp only [Option.bind_eq_bind,Option.bind_some]
  cases Transport.validateCert K cert trusted now with
  | error e => rfl
  | ok _ =>
    dsimp only
    rw [verifySigned_eq hh]
    simp only [Option.bind_some]
    split_ifs <;> rfl

end Signatures

section Scopes

variable {K : Crypto} (cert : Cert)

theorem carriesLoop_eq (scope : Bytes) (is : List Nat) (hi : ∀i∈is,i < 256) :
    carriesLoop cert scope is=some (is.any (fun i =>
      decide (i*lenScopeId+lenScopeId ≤ cert.scopeIds.length) &&
        (cert.scopeIds.drop (i*lenScopeId)).take lenScopeId==scope)) := by
  induction is with
  | nil => rfl
  | cons i is ih =>
    have hlt := hi i List.mem_cons_self
    have hrest := ih (fun j hj => hi j (List.mem_cons_of_mem _ hj))
    have hlen : lenScopeId=8 := rfl
    rw [carriesLoop,List.any_cons,mul_eq (by rw [wordLimit,hlen]; omega)]
    simp only [Option.bind_eq_bind,Option.bind_some]
    rw [add_eq (by rw [wordLimit,hlen]; omega)]
    simp only [Option.bind_some,hrest]
    by_cases hin : i*lenScopeId+lenScopeId ≤ cert.scopeIds.length
    · rw [if_pos hin,range_add hin,decide_eq_true hin,Bool.true_and]
      simp only [Option.bind_some]
      by_cases he : (cert.scopeIds.drop (i*lenScopeId)).take lenScopeId=scope
      · rw [if_pos he,beq_iff_eq.mpr he,Bool.true_or]
        rfl
      · rw [if_neg he,beq_eq_false_iff_ne.mpr he,Bool.false_or]
    · rw [if_neg hin,decide_eq_false hin,Bool.false_and,Bool.false_or]

theorem certCarriesScope_eq (scope : Bytes) :
    certCarriesScope cert scope=some (Transport.certCarriesScope cert scope) :=
  carriesLoop_eq cert scope _ (fun _ hi => (List.mem_range.mp hi).trans cert.scopeCount.toNat_lt)

theorem slashEnd_eq (resourceId : Bytes) (n : Nat) (hn : n ≤ resourceId.length) :
    slashEnd resourceId n=some (Transport.slashEnd resourceId n) := by
  induction n with
  | zero => rfl
  | succ n ih =>
    have hlast : resourceId.getD n 0=resourceId[n] := by
      rw [List.getD_eq_getElem?_getD,List.getElem?_eq_getElem hn,Option.getD_some]
    rw [slashEnd,Transport.slashEnd,sub_eq (Nat.le_add_left 1 n),ih (Nat.le_of_succ_le hn)]
    simp only [Option.bind_eq_bind,Option.bind_some,Nat.add_sub_cancel]
    rw [index_eq hn,hlast]
    simp only [Option.bind_some]
    split_ifs <;> rfl

theorem slashEnd_le (resourceId : Bytes) (n : Nat) : Transport.slashEnd resourceId n ≤ n := by
  induction n with
  | zero => exact le_rfl
  | succ n ih =>
    rw [Transport.slashEnd]
    split
    · exact ih.trans (Nat.le_succ n)
    · exact le_rfl

/-- The walk gets shorter on every pass and stays inside the path. -/
theorem scopeLoop_eq (resourceId : Bytes) (fuel stop : Nat) (hf : stop ≤ fuel) (hs : stop ≤ resourceId.length) :
    scopeLoop K cert resourceId fuel stop=some (Transport.scopeLoop K cert resourceId fuel stop) := by
  induction fuel generalizing stop with
  | zero => exact if_pos (Nat.le_zero.mp hf)
  | succ fuel ih =>
    rw [scopeLoop,Transport.scopeLoop]
    by_cases h0 : stop=0
    · rw [if_pos h0,if_pos h0]
      rfl
    have hle := slashEnd_le resourceId stop
    rw [if_neg h0,if_neg h0,range_front hs]
    simp only [Option.bind_eq_bind,Option.bind_some]
    rw [range_front (by rw [List.Vector.toList_length]; decide)]
    simp only [Option.bind_some,certCarriesScope_eq,slashEnd_eq resourceId stop hs]
    by_cases hc : Transport.certCarriesScope cert ((K.blake2s (resourceId.take stop)).toList.take lenScopeId)=true
    · rw [if_pos hc,if_pos hc]
      rfl
    rw [if_neg hc,if_neg hc]
    by_cases hz : Transport.slashEnd resourceId stop=0
    · rw [if_pos hz,if_pos hz]
      rfl
    rw [if_neg hz,if_neg hz,sub_eq (Nat.one_le_iff_ne_zero.mpr hz)]
    exact ih _ (by omega) (by omega)

theorem scopeHolds_eq (resourceId : Bytes) : scopeHolds K cert resourceId=
    some (decide (¬(3 ≤ cert.version ∧ Transport.scopeCoversResource K cert resourceId=false))) := by
  rw [scopeHolds,scopeCoversResource,scopeLoop_eq cert resourceId _ _ le_rfl le_rfl]
  by_cases hv : 3 ≤ cert.version
  · rw [if_pos hv,Transport.scopeCoversResource]
    cases Transport.scopeLoop K cert resourceId resourceId.length resourceId.length <;> simp [hv]
  · rw [if_neg hv]
    simp [hv]

end Scopes

section Grants

/-- A verdict as the outcome of checks that may panic. -/
def ofVerdict {α : Type} : Verdict α → Checks α
  | .ok a => pure a
  | .error (.err e) => throw e
  | .error .panic => ExceptT.mk none

/-- The context with a hook that never panics. -/
def ofContext (c : Transport.GrantContext) : GrantContext :=
  { c with alreadyConsumed id notAfter nowMs := some (c.alreadyConsumed id notAfter nowMs) }

theorem ofVerdict_bind {α β : Type} (v : Verdict α) (k : α → Verdict β) :
    ofVerdict (v>>=k)=(ofVerdict v>>=fun a => ofVerdict (k a)) := by
  cases v with
  | ok a => rfl
  | error a => cases a <;> rfl

theorem ofVerdict_refuse (check : Option VerifyError) : ofVerdict (Transport.refuse check)=refuse check := by
  cases check <;> rfl

theorem ofVerdict_refuseIf (b : Prop) [Decidable b] (e : VerifyError) :
    ofVerdict (Transport.refuseIf b e)=refuseIf b e := by
  rw [Transport.refuseIf,refuseIf]
  split <;> rfl

theorem ofVerdict_orRefuse {α : Type} (o : Option α) (e : VerifyError) :
    ofVerdict (Transport.orRefuse o e)=orRefuse o e := by
  cases o <;> rfl

theorem ofVerdict_add64 (a b : UInt64) : ofVerdict (Transport.add64 a b)=inRange (Panic.add64 a b) := by
  rw [Transport.add64,Panic.add64,wordLimit]
  split <;> rfl

theorem ofVerdict_mul64 (a b : UInt64) : ofVerdict (Transport.mul64 a b)=inRange (Panic.mul64 a b) := by
  rw [Transport.mul64,Panic.mul64,wordLimit]
  split <;> rfl

theorem inRange_some {α : Type} (a : α) : inRange (some a)=(pure a : Checks α) := rfl

theorem inRange_bind {α β : Type} {o : Option α} {a : α} (h : o=some a) (k : α → Checks β) :
    (inRange o>>=k)=k a := by
  rw [h]
  rfl

theorem refuseIf_congr {a b : Prop} [Decidable a] [Decidable b] (h : a ↔ b) (e : VerifyError) :
    refuseIf a e=refuseIf b e := by
  rw [refuseIf,refuseIf]
  exact ite_congr (propext h) (fun _ => rfl) (fun _ => rfl)

theorem checkExpiry_eq (notAfter nowMs firstReceiptMs tMaxS tRecvS : UInt64) :
    checkExpiry notAfter nowMs firstReceiptMs tMaxS tRecvS=
      ofVerdict (Transport.checkExpiry notAfter nowMs firstReceiptMs tMaxS tRecvS) := by
  simp only [Transport.checkExpiry,ofVerdict_bind,ofVerdict_mul64,ofVerdict_add64,ofVerdict_refuseIf]
  rfl

/-- The index that was found is one of the table. -/
theorem index_matched (t : Table) (intentId : FixedBytes 16) (e : VerifyError) (k : Entry → Checks Unit) :
    (orRefuse (t.matchForGrant intentId) e>>=fun idx => inRange (index t.entries idx)>>=k)=
      (orRefuse (t.pendingEntry intentId) e>>=k) := by
  rw [Table.pendingEntry]
  cases hm : t.matchForGrant intentId with
  | none => rfl
  | some idx =>
    obtain ⟨hlt,-⟩ := List.findIdx?_eq_some_iff_getElem.mp hm
    have hi : index t.entries idx=some t.entries[idx] := index_eq hlt
    have hi' : t.entries[idx]?=some t.entries[idx] := hi
    rw [Option.bind_some,hi']
    exact inRange_bind hi k

theorem resource_eq (e : Entry) : range e.resourceId.toList 0 e.resourceLen=some e.resource :=
  range_front (by rw [List.Vector.toList_length]; exact e.lenLe)

theorem action_eq (e : SenderEntry) : range e.action.toList 0 e.actionLen=some e.actionBytes :=
  range_front (by rw [List.Vector.toList_length]; exact e.lenLe)

theorem actionDigest_eq (K : Crypto) (action : Bytes) :
    actionDigest K action=some (Transport.actionDigest K action) :=
  copy_eq (by rw [zeros_length,List.Vector.toList_length])

variable {K : Crypto} {env : Envelope} {grant : Grant}

theorem refuse_scope (cert : Cert) (resourceId : Bytes) (e : VerifyError) (k : Unit → Checks Unit) :
    (inRange (scopeHolds K cert resourceId)>>=fun covers => refuseIf (covers=false) e>>=k)=
      (refuseIf (3 ≤ cert.version ∧ Transport.scopeCoversResource K cert resourceId=false) e>>=k) := by
  rw [inRange_bind (scopeHolds_eq cert resourceId)]
  congr 1
  exact refuseIf_congr (by simp) e

/-- The checks of a grant panic only where the arithmetic of its expiry does. -/
theorem grantChecks_eq (h : grant.tbs.length < sliceLimit) (c : Transport.GrantContext) :
    grantChecks K env grant (ofContext c)=ofVerdict (Transport.grantChecks K env grant c) := by
  simp only [Transport.grantChecks,ofVerdict_bind,ofVerdict_refuse,ofVerdict_refuseIf,ofVerdict_orRefuse,
    ← checkExpiry_eq]
  rw [grantChecks]
  simp only [ofContext,verifySignedErr_eq h,resource_eq,action_eq,actionDigest_eq,inRange_some,pure_bind,
    refuse_scope,index_matched]
  rfl

theorem verifyGrantThen_eq {σ : Type} (h : grant.tbs.length < sliceLimit) (c : Transport.GrantContext)
    {execute : Grant → σ → Option (EffectOutcome × σ)} {execute' : Grant → σ → EffectOutcome × σ}
    (hx : ∀s,execute grant s=some (execute' grant s)) (hp : ¬Panics K env grant c) (s : σ) :
    ∃r : Except VerifyError EffectOutcome,verifyGrantThen K env grant (ofContext c) execute s=
        some (r,(Transport.verifyGrantThen K env grant c execute' s).2) ∧
      (Transport.verifyGrantThen K env grant c execute' s).1=r.mapError Abort.err := by
  rw [verifyGrantThen,grantChecks_eq h,Transport.verifyGrantThen,grantChecks_of_not_panic K env grant c hp]
  cases codeError K env grant c with
  | some e => exact ⟨.error e,rfl,rfl⟩
  | none =>
    refine ⟨.ok (execute' grant s).1,?_,rfl⟩
    show (execute grant s>>=_)=_
    rw [hx]
    rfl

end Grants

end Bolina.Checked
