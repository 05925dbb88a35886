import Bolina.Transport.Verify

namespace Bolina.Transport

open Codec Intent

/-- A check that fails with `e` when `b` holds. -/
def fails (b : Prop) [Decidable b] (e : VerifyError) : Option VerifyError := if b then some e else none

/-- The error of the first check of a list that fails. -/
def firstFailing : List (Option VerifyError) → Option VerifyError
  | [] => none
  | some e::_ => some e
  | none::cs => firstFailing cs

/-- The pending entry of the grant's intent. -/
def pendingOf (ctx : GrantContext) (grant : Grant) : Option Entry :=
  if grant.intentId.length=lenIntentId then ctx.intentTable.pendingEntry (fixed 16 grant.intentId) else none

/-- The sender record of the grant's intent. -/
def recordOf (ctx : GrantContext) (grant : Grant) : Option SenderEntry :=
  ctx.senderTable.lookup grant.intentId

/-- Checks 3 and 4: role, key and revocation of a certificate. -/
def certCheck (cert : Cert) (role : UInt8) (pubkey : Bytes) (isRevoked : Bytes → Bool)
    (bad revoked : VerifyError) : Option VerifyError :=
  if cert.roleBits&&&role=0 ∨ cert.sigPubkey≠pubkey then some bad
  else fails (isRevoked cert.sigPubkey=true) revoked

/-- Checks 3a and 4a: scopes count from certificate version 3 on. -/
def scopeCheck (K : Crypto) (cert : Cert) (resourceId : Bytes) (e : VerifyError) : Option VerifyError :=
  fails (3 ≤ cert.version ∧ scopeCoversResource K cert resourceId=false) e

/-- The three conditions of check 10, over the natural numbers. -/
def InTime (grant : Grant) (ctx : GrantContext) : Prop :=
  ctx.nowMs<grant.notAfter ∧
    grant.notAfter.toNat ≤ ctx.firstReceiptMs.toNat+ctx.tMaxS.toNat*1000 ∧
    ctx.nowMs.toNat ≤ ctx.firstReceiptMs.toNat+ctx.tRecvS.toNat*1000

instance (grant : Grant) (ctx : GrantContext) : Decidable (InTime grant ctx) :=
  inferInstanceAs (Decidable (_ ∧ _ ∧ _))

section Checks

variable (K : Crypto) (env : Envelope) (grant : Grant) (ctx : GrantContext)

/-- Checks 1 to 6, which need no pending entry. -/
def earlyChecks : List (Option VerifyError) :=
  [fails (grant.intentId.length≠lenIntentId ∨ env.bodyType≠bodyGrant ∨ env.sender≠grant.approver)
      .BadEnvelopeBinding,
    verifySignedErr K domainGrant grant.tbs grant.sig grant.approver,
    certCheck ctx.approverCert roleApprover grant.approver ctx.isRevoked .BadApproverCert .ApproverRevoked,
    scopeCheck K ctx.approverCert grant.resourceId .ApproverOutOfScope,
    certCheck ctx.subjectCert roleAgent grant.subject ctx.isRevoked .BadSubjectCert .SubjectRevoked,
    scopeCheck K ctx.subjectCert grant.resourceId .SubjectOutOfScope,
    fails (grant.executor≠ctx.ownPubkey) .WrongExecutor,
    (recordOf ctx grant).bind (fun r => fails (grant.subject≠r.sender.toList) .WrongSubject)]

/-- Check 7. -/
def intentCheck : Option VerifyError :=
  fails (pendingOf ctx grant=none ∨ recordOf ctx grant=none) .NoMatchingIntent

/-- Checks 8 and 9. -/
def recordChecks : List (Option VerifyError) :=
  [(pendingOf ctx grant).bind (fun e => fails (grant.resourceId≠e.resource) .WrongResource),
    (recordOf ctx grant).bind (fun r =>
      fails (grant.actionDigest≠actionDigest K r.actionBytes) .ActionDigestMismatch)]

/-- Checks 10 and 11. -/
def lateChecks : List (Option VerifyError) :=
  [fails (¬InTime grant ctx) .Expired,
    fails (ctx.alreadyConsumed grant.grantId grant.notAfter ctx.nowMs=true) .AlreadyConsumed]

/-- All checks in the normative order 0 to 11. -/
def normativeChecks : List (Option VerifyError) :=
  fails (grant.version≠2) .BadVersion::(earlyChecks K env grant ctx++
    intentCheck grant ctx::(recordChecks K grant ctx++lateChecks grant ctx))

/-- The checks before the expiry in the order of the code: the lookups of check 7
come before checks 1 to 6, except that a malformed id is noticed first. -/
def codeChecks : List (Option VerifyError) :=
  fails (grant.version≠2) .BadVersion::fails (grant.intentId.length≠lenIntentId) .BadEnvelopeBinding::
    intentCheck grant ctx::(earlyChecks K env grant ctx++recordChecks K grant ctx)

end Checks

theorem refuseIf_eq (b : Prop) [Decidable b] (e : VerifyError) : refuseIf b e=refuse (fails b e) := by
  unfold refuseIf fails
  split <;> rfl

theorem refuse_bind {α : Type} (check : Option VerifyError) (k : Unit → Verdict α) :
    (refuse check>>=k)=match check with | some e => .error (.err e) | none => k () := by
  cases check <;> rfl

theorem firstFailing_append (cs ds : List (Option VerifyError)) :
    firstFailing (cs++ds)=(firstFailing cs).or (firstFailing ds) := by
  induction cs with
  | nil => rfl
  | cons c cs ih =>
    cases c with
    | none => exact ih
    | some e => rfl

theorem firstFailing_eq_none (cs : List (Option VerifyError)) :
    firstFailing cs=none ↔ ∀c∈cs,c=none := by
  induction cs with
  | nil => simp [firstFailing]
  | cons c cs ih =>
    cases c with
    | none => simpa [firstFailing] using ih
    | some e => simp [firstFailing]

theorem refuse_firstFailing_cons (c : Option VerifyError) (cs : List (Option VerifyError))
    (k : Unit → Verdict Unit) :
    (refuse (firstFailing (c::cs))>>=k)=(refuse c>>=fun _ => refuse (firstFailing cs)>>=k) := by
  cases c <;> rfl

theorem refuse_or {a b : Prop} [Decidable a] [Decidable b] (e : VerifyError) (k : Unit → Verdict Unit) :
    (refuse (fails (a ∨ b) e)>>=k)=(refuse (fails a e)>>=fun _ => refuse (fails b e)>>=k) := by
  by_cases ha : a
  · simp [fails,ha,refuse_bind]
  · simp [fails,ha,refuse_bind]

theorem refuse_certCheck (cert : Cert) (role : UInt8) (pubkey : Bytes) (isRevoked : Bytes → Bool)
    (bad revoked : VerifyError) (k : Unit → Verdict Unit) :
    (refuse (certCheck cert role pubkey isRevoked bad revoked)>>=k)=(do
      refuse (fails (cert.roleBits&&&role=0) bad)
      refuse (fails (cert.sigPubkey≠pubkey) bad)
      refuse (fails (isRevoked cert.sigPubkey=true) revoked)
      k ()) := by
  by_cases hr : cert.roleBits&&&role=0
  · simp [certCheck,fails,hr,refuse_bind]
  · by_cases hp : cert.sigPubkey=pubkey
    · simp [certCheck,fails,hr,hp,refuse_bind]
    · simp [certCheck,fails,hr,hp,refuse_bind]

theorem refuse_passed {b : Prop} [Decidable b] (e : VerifyError) (k : Unit → Verdict Unit) (h : ¬b) :
    (refuse (fails b e)>>=k)=k () := by
  rw [fails,if_neg h]
  rfl

theorem ok_bind {α β : Type} (a : α) (k : α → Verdict β) : ((.ok a : Verdict α)>>=k)=k a := rfl

/-- The code runs its checks one after the other up to the first that fails. -/
theorem grantChecks_eq (K : Crypto) (env : Envelope) (grant : Grant) (ctx : GrantContext) :
    grantChecks K env grant ctx=(do
      refuse (firstFailing (codeChecks K env grant ctx))
      checkExpiry grant.notAfter ctx.nowMs ctx.firstReceiptMs ctx.tMaxS ctx.tRecvS
      refuse (fails (ctx.alreadyConsumed grant.grantId grant.notAfter ctx.nowMs=true) .AlreadyConsumed)) := by
  rw [codeChecks,refuse_firstFailing_cons,refuse_firstFailing_cons,refuse_firstFailing_cons]
  rw [grantChecks,refuseIf_eq]
  congr 1
  funext _
  by_cases hlen : grant.intentId.length=lenIntentId
  · cases hp : ctx.intentTable.pendingEntry (fixed 16 grant.intentId) with
    | none => simp [hlen,hp,orRefuse,fails,intentCheck,pendingOf,bind,Except.bind,refuse]
    | some entry =>
      have hid : grant.intentId=entry.intentId.toList := by
        rw [((pendingEntry_iff _ _ _).mp hp).2.2]
        exact (toList_fixed grant.intentId hlen).symm
      cases hr : ctx.senderTable.lookup grant.intentId with
      | none =>
        simp [hlen,hp,hr,orRefuse,fails,intentCheck,pendingOf,recordOf,bind,Except.bind,refuse]
      | some record =>
        have hpo : pendingOf ctx grant=some entry := by rw [pendingOf,if_pos hlen,hp]
        have hro : recordOf ctx grant=some record := hr
        simp only [hpo,hro,orRefuse,if_pos hlen,refuseIf_eq,ok_bind,hp,earlyChecks,intentCheck,
          recordChecks,List.cons_append,List.nil_append,refuse_firstFailing_cons,refuse_or,
          refuse_certCheck,scopeCheck,Option.bind_some]
        have he : ¬(some entry=none) := by simp
        have hs : ¬(some record=none) := by simp
        rw [refuse_passed _ _ (not_not.mpr hid),refuse_passed _ _ (not_not.mpr hlen),
          refuse_passed _ _ he,refuse_passed _ _ hs,refuse_passed _ _ (not_not.mpr hlen)]
        rfl
  · simp [hlen,orRefuse,fails,refuse,bind,Except.bind]

/-- The arithmetic of check 10 leaves the 64-bit range, in the order of its
evaluation: a sum behind a failing comparison is never computed. -/
def ExpiryOverflows (grant : Grant) (ctx : GrantContext) : Prop :=
  2^64 ≤ ctx.tMaxS.toNat*1000 ∨ 2^64 ≤ ctx.tRecvS.toNat*1000 ∨
    (ctx.nowMs<grant.notAfter ∧
      (2^64 ≤ ctx.firstReceiptMs.toNat+ctx.tMaxS.toNat*1000 ∨
        (grant.notAfter.toNat ≤ ctx.firstReceiptMs.toNat+ctx.tMaxS.toNat*1000 ∧
          2^64 ≤ ctx.firstReceiptMs.toNat+ctx.tRecvS.toNat*1000)))

instance (grant : Grant) (ctx : GrantContext) : Decidable (ExpiryOverflows grant ctx) :=
  inferInstanceAs (Decidable (_ ∨ _ ∨ _))

theorem mul64_bind {α : Type} (a b : UInt64) (k : UInt64 → Verdict α) :
    (mul64 a b>>=k)=if 2^64 ≤ a.toNat*b.toNat then .error .panic else k (a*b) := by
  rw [mul64]
  by_cases h : a.toNat*b.toNat<2^64
  · rw [if_pos h,if_neg (Nat.not_le.mpr h)]
    rfl
  · rw [if_neg h,if_pos (Nat.le_of_not_lt h)]
    rfl

theorem add64_bind {α : Type} (a b : UInt64) (k : UInt64 → Verdict α) :
    (add64 a b>>=k)=if 2^64 ≤ a.toNat+b.toNat then .error .panic else k (a+b) := by
  rw [add64]
  by_cases h : a.toNat+b.toNat<2^64
  · rw [if_pos h,if_neg (Nat.not_le.mpr h)]
    rfl
  · rw [if_neg h,if_pos (Nat.le_of_not_lt h)]
    rfl

theorem refuseIf_bind {α : Type} (b : Prop) [Decidable b] (e : VerifyError) (k : Unit → Verdict α) :
    (refuseIf b e>>=k)=if b then .error (.err e) else k () := by
  rw [refuseIf]
  split <;> rfl

theorem refuse_failed {b : Prop} [Decidable b] (e : VerifyError) (k : Unit → Verdict Unit) (h : b) :
    (refuse (fails b e)>>=k)=.error (.err e) := by
  rw [fails,if_pos h]
  rfl

/-- The steps of check 10, over the natural numbers. -/
theorem checkExpiry_steps (notAfter nowMs firstReceiptMs tMaxS tRecvS : UInt64) :
    checkExpiry notAfter nowMs firstReceiptMs tMaxS tRecvS=
      if 2^64 ≤ tMaxS.toNat*1000 then .error .panic
      else if 2^64 ≤ tRecvS.toNat*1000 then .error .panic
      else if notAfter.toNat ≤ nowMs.toNat then .error (.err .Expired)
      else if 2^64 ≤ firstReceiptMs.toNat+tMaxS.toNat*1000 then .error .panic
      else if firstReceiptMs.toNat+tMaxS.toNat*1000 < notAfter.toNat then .error (.err .Expired)
      else if 2^64 ≤ firstReceiptMs.toNat+tRecvS.toNat*1000 then .error .panic
      else if firstReceiptMs.toNat+tRecvS.toNat*1000 < nowMs.toNat then .error (.err .Expired)
      else .ok () := by
  rw [checkExpiry,mul64_bind]
  refine ite_congr rfl (fun _ => rfl) (fun hmax => ?_)
  rw [mul64_bind]
  refine ite_congr rfl (fun _ => rfl) (fun hrecv => ?_)
  have hth : (1000 : UInt64).toNat=1000 := rfl
  have hm : (tMaxS*1000).toNat=tMaxS.toNat*1000 := by
    rw [UInt64.toNat_mul,hth]
    omega
  have hr : (tRecvS*1000).toNat=tRecvS.toNat*1000 := by
    rw [UInt64.toNat_mul,hth]
    omega
  rw [refuseIf_bind]
  refine ite_congr (propext UInt64.le_iff_toNat_le) (fun _ => rfl) (fun _ => ?_)
  rw [add64_bind,hm]
  refine ite_congr rfl (fun _ => rfl) (fun hsum => ?_)
  have hb : (firstReceiptMs+tMaxS*1000).toNat=firstReceiptMs.toNat+tMaxS.toNat*1000 := by
    rw [UInt64.toNat_add,hm]
    omega
  rw [refuseIf_bind]
  refine ite_congr (by rw [UInt64.lt_iff_toNat_lt,hb]) (fun _ => rfl) (fun _ => ?_)
  rw [add64_bind,hr]
  refine ite_congr rfl (fun _ => rfl) (fun hwin => ?_)
  have hw : (firstReceiptMs+tRecvS*1000).toNat=firstReceiptMs.toNat+tRecvS.toNat*1000 := by
    rw [UInt64.toNat_add,hr]
    omega
  rw [refuseIf]
  exact ite_congr (by rw [UInt64.lt_iff_toNat_lt,hw]) (fun _ => rfl) (fun _ => rfl)

/-- Check 10 panics, or it decides whether the grant is in time. -/
theorem checkExpiry_eq (grant : Grant) (ctx : GrantContext) :
    checkExpiry grant.notAfter ctx.nowMs ctx.firstReceiptMs ctx.tMaxS ctx.tRecvS=
      if ExpiryOverflows grant ctx then .error .panic else refuse (fails (¬InTime grant ctx) .Expired) := by
  rw [checkExpiry_steps]
  simp only [ExpiryOverflows,InTime,UInt64.lt_iff_toNat_lt,fails]
  split_ifs
  all_goals first | rfl | (exfalso; omega)

/-- What checks 0 to 9 ask of a grant. -/
structure Matched (K : Crypto) (env : Envelope) (grant : Grant) (ctx : GrantContext) : Prop where
  version : grant.version=2
  bodyType : env.bodyType=bodyGrant
  sender : env.sender=grant.approver
  signature : verifySigned K domainGrant grant.tbs grant.sig grant.approver=true
  approverRole : ctx.approverCert.roleBits&&&roleApprover≠0
  approverKey : ctx.approverCert.sigPubkey=grant.approver
  approverLive : ctx.isRevoked ctx.approverCert.sigPubkey=false
  approverScope : 3 ≤ ctx.approverCert.version → scopeCoversResource K ctx.approverCert grant.resourceId=true
  subjectRole : ctx.subjectCert.roleBits&&&roleAgent≠0
  subjectKey : ctx.subjectCert.sigPubkey=grant.subject
  subjectLive : ctx.isRevoked ctx.subjectCert.sigPubkey=false
  subjectScope : 3 ≤ ctx.subjectCert.version → scopeCoversResource K ctx.subjectCert grant.resourceId=true
  executor : grant.executor=ctx.ownPubkey
  intent : ∃e∈ctx.intentTable.entries,e.state=.Pending ∧ e.intentId.toList=grant.intentId ∧
    e.resource=grant.resourceId
  record : ∃r,ctx.senderTable.lookup grant.intentId=some r ∧ r.sender.toList=grant.subject ∧
    actionDigest K r.actionBytes=grant.actionDigest

/-- Everything a grant needs to be executed. -/
structure Authorised (K : Crypto) (env : Envelope) (grant : Grant) (ctx : GrantContext) : Prop
    extends Matched K env grant ctx where
  inTime : InTime grant ctx
  fresh : ctx.alreadyConsumed grant.grantId grant.notAfter ctx.nowMs=false

/-- Checks 0 to 9 do not ask the ledger. -/
theorem Matched.withLedger {K : Crypto} {env : Envelope} {grant : Grant} {ctx : GrantContext}
    (h : Matched K env grant ctx) (alreadyConsumed : Bytes → UInt64 → UInt64 → Bool) :
    Matched K env grant { ctx with alreadyConsumed } :=
  ⟨h.version,h.bodyType,h.sender,h.signature,h.approverRole,h.approverKey,h.approverLive,h.approverScope,
    h.subjectRole,h.subjectKey,h.subjectLive,h.subjectScope,h.executor,h.intent,h.record⟩

theorem fails_eq_none (b : Prop) [Decidable b] (e : VerifyError) : fails b e=none ↔ ¬b := by
  by_cases h : b <;> simp [fails,h]

theorem verifySignedErr_eq_none (K : Crypto) (tag : UInt8) (tbs sig pubkey : Bytes) :
    verifySignedErr K tag tbs sig pubkey=none ↔ verifySigned K tag tbs sig pubkey=true := by
  rw [verifySignedErr]
  by_cases hk : pubkey.length=lenPubkey
  · by_cases hs : sig.length=lenSig
    · by_cases hv : verifySigned K tag tbs sig pubkey=true
      · simp [hk,hs,hv]
      · simp [hk,hs,hv]
    · simp [hk,hs,verifySigned]
  · simp [hk,verifySigned]

theorem certCheck_eq_none (cert : Cert) (role : UInt8) (pubkey : Bytes) (isRevoked : Bytes → Bool)
    (bad revoked : VerifyError) : certCheck cert role pubkey isRevoked bad revoked=none ↔
      cert.roleBits&&&role≠0 ∧ cert.sigPubkey=pubkey ∧ isRevoked cert.sigPubkey=false := by
  rw [certCheck]
  by_cases hr : cert.roleBits&&&role=0
  · simp [hr]
  · by_cases hp : cert.sigPubkey=pubkey
    · simp [hr,hp,fails_eq_none]
    · simp [hr,hp]

theorem scopeCheck_eq_none (K : Crypto) (cert : Cert) (resourceId : Bytes) (e : VerifyError) :
    scopeCheck K cert resourceId e=none ↔
      (3 ≤ cert.version → scopeCoversResource K cert resourceId=true) := by
  simp [scopeCheck,fails_eq_none]

theorem pendingOf_iff (ctx : GrantContext) (grant : Grant) (e : Entry) :
    pendingOf ctx grant=some e ↔
      e∈ctx.intentTable.entries ∧ e.state=.Pending ∧ e.intentId.toList=grant.intentId := by
  constructor
  · intro h
    rw [pendingOf] at h
    split at h
    · rename_i hlen
      obtain ⟨hm,hs,hid⟩ := (pendingEntry_iff _ _ _).mp h
      refine ⟨hm,hs,?_⟩
      rw [hid]
      exact toList_fixed grant.intentId hlen
    · cases h
  · intro h
    obtain ⟨hm,hs,hid⟩ := h
    have hlen : grant.intentId.length=lenIntentId := by
      rw [← hid]
      exact e.intentId.toList_length
    rw [pendingOf,if_pos hlen]
    refine (pendingEntry_iff _ _ _).mpr ⟨hm,hs,?_⟩
    rw [← hid,fixed_toList]

theorem pendingOf_length (ctx : GrantContext) (grant : Grant) (e : Entry) (h : pendingOf ctx grant=some e) :
    grant.intentId.length=lenIntentId := by
  rw [← ((pendingOf_iff ctx grant e).mp h).2.2]
  exact e.intentId.toList_length

theorem matched_iff (K : Crypto) (env : Envelope) (grant : Grant) (ctx : GrantContext) :
    Matched K env grant ctx ↔ firstFailing (codeChecks K env grant ctx)=none := by
  simp only [codeChecks,earlyChecks,recordChecks,intentCheck,firstFailing_eq_none,List.mem_cons,
    List.mem_append,List.not_mem_nil,or_false,or_imp,forall_and,forall_eq,fails_eq_none,
    verifySignedErr_eq_none,certCheck_eq_none,scopeCheck_eq_none,not_or,Ne,not_not]
  constructor
  · intro h
    obtain ⟨e,hm,hs,hid,hres⟩ := h.intent
    obtain ⟨r,hr,hsub,hdig⟩ := h.record
    have hp : pendingOf ctx grant=some e := (pendingOf_iff ctx grant e).mpr ⟨hm,hs,hid⟩
    have hr' : recordOf ctx grant=some r := hr
    have hlen : grant.intentId.length=lenIntentId := pendingOf_length ctx grant e hp
    have hsubject : fails (¬grant.subject=r.sender.toList) VerifyError.WrongSubject=none :=
      (fails_eq_none _ _).mpr (not_not.mpr hsub.symm)
    have hresource : fails (¬grant.resourceId=e.resource) VerifyError.WrongResource=none :=
      (fails_eq_none _ _).mpr (not_not.mpr hres.symm)
    have haction : fails (¬grant.actionDigest=actionDigest K r.actionBytes)
        VerifyError.ActionDigestMismatch=none := (fails_eq_none _ _).mpr (not_not.mpr hdig.symm)
    rw [hp,hr']
    exact ⟨h.version,hlen,⟨by simp,by simp⟩,⟨⟨hlen,h.bodyType,h.sender⟩,h.signature,
      ⟨h.approverRole,h.approverKey,h.approverLive⟩,h.approverScope,
      ⟨h.subjectRole,h.subjectKey,h.subjectLive⟩,h.subjectScope,h.executor,hsubject⟩,
      hresource,haction⟩
  · intro h
    obtain ⟨hversion,_,⟨hpend,hrec⟩,⟨⟨_,hbody,hsender⟩,hsig,⟨harole,hakey,halive⟩,hascope,
      ⟨hsrole,hskey,hslive⟩,hsscope,hexec,hsubject⟩,hresource,haction⟩ := h
    obtain ⟨e,hp⟩ := Option.ne_none_iff_exists'.mp hpend
    obtain ⟨r,hr⟩ := Option.ne_none_iff_exists'.mp hrec
    obtain ⟨hm,hs,hid⟩ := (pendingOf_iff ctx grant e).mp hp
    rw [hp,Option.bind_some,fails_eq_none,not_not] at hresource
    rw [hr,Option.bind_some,fails_eq_none,not_not] at hsubject
    rw [hr,Option.bind_some,fails_eq_none,not_not] at haction
    exact ⟨hversion,hbody,hsender,hsig,harole,hakey,halive,hascope,hsrole,hskey,hslive,hsscope,hexec,
      ⟨e,hm,hs,hid,hresource.symm⟩,⟨r,hr,hsubject.symm,haction.symm⟩⟩

/-- A grant is authorised exactly when no check fails. -/
theorem authorised_iff (K : Crypto) (env : Envelope) (grant : Grant) (ctx : GrantContext) :
    Authorised K env grant ctx ↔ Matched K env grant ctx ∧ InTime grant ctx ∧
      ctx.alreadyConsumed grant.grantId grant.notAfter ctx.nowMs=false := by
  constructor
  · intro h
    exact ⟨h.toMatched,h.inTime,h.fresh⟩
  · intro h
    exact ⟨h.1,h.2.1,h.2.2⟩

end Bolina.Transport
