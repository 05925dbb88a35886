import Bolina.Transport.GrantChecks

namespace Bolina.Transport

open Codec Intent BigEndian

/-- A callback that also notes the grants it is run on. -/
def recording {σ : Type} (execute : Grant → σ → EffectOutcome × σ) :
    Grant → σ × List Grant → EffectOutcome × (σ × List Grant) :=
  fun g s => ((execute g s.1).1,((execute g s.1).2,s.2++[g]))

section Verdict

variable (K : Crypto) (env : Envelope) (grant : Grant) (ctx : GrantContext)

/-- The callback runs exactly once, on this grant, if the grant is authorised; if
not, it does not run and the call returns an error value. -/
def ExactlyWhenAuthorised : Prop :=
  ∀(σ : Type) (execute : Grant → σ → EffectOutcome × σ) (s : σ),
    (Authorised K env grant ctx →
      verifyGrantThen K env grant ctx (recording execute) (s,[])=
        (.ok (execute grant s).1,((execute grant s).2,[grant]))) ∧
    (¬Authorised K env grant ctx →
      ∃e,verifyGrantThen K env grant ctx (recording execute) (s,[])=(.error (.err e),(s,[])))

/-- Check 10 is reached and its arithmetic leaves the 64-bit range. -/
def Panics : Prop := Matched K env grant ctx ∧ ExpiryOverflows grant ctx

/-- The error of the first failing check in the order of the code; `none` where
every check passes. -/
def codeError : Option VerifyError :=
  (firstFailing (codeChecks K env grant ctx)).or (firstFailing (lateChecks grant ctx))

theorem grantChecks_panic (h : Panics K env grant ctx) : grantChecks K env grant ctx=.error .panic := by
  rw [grantChecks_eq,(matched_iff K env grant ctx).mp h.1,checkExpiry_eq,if_pos h.2]
  rfl

theorem grantChecks_of_not_panic (h : ¬Panics K env grant ctx) :
    grantChecks K env grant ctx=refuse (codeError K env grant ctx) := by
  rw [grantChecks_eq,codeError]
  cases hc : firstFailing (codeChecks K env grant ctx) with
  | some e => rfl
  | none =>
    have hm : Matched K env grant ctx := (matched_iff K env grant ctx).mpr hc
    have ho : ¬ExpiryOverflows grant ctx := fun ho => h ⟨hm,ho⟩
    rw [checkExpiry_eq,if_neg ho,lateChecks]
    by_cases ht : InTime grant ctx
    · rw [refuse_passed _ _ (not_not.mpr ht),fails,fails,if_neg (not_not.mpr ht)]
      split <;> rfl
    · rw [refuse_failed _ _ ht,fails,if_pos ht]
      rfl

theorem authorised_iff_codeError :
    Authorised K env grant ctx ↔ codeError K env grant ctx=none := by
  rw [authorised_iff,matched_iff,codeError,Option.or_eq_none_iff,firstFailing_eq_none (lateChecks grant ctx)]
  simp [lateChecks,fails_eq_none]

/-- How the call ends, in terms of the first failing check. -/
theorem verifyGrantThen_eq {σ : Type} (execute : Grant → σ → EffectOutcome × σ) (s : σ)
    (h : ¬Panics K env grant ctx) :
    verifyGrantThen K env grant ctx execute s=
      match codeError K env grant ctx with
      | some e => (.error (.err e),s)
      | none => (.ok (execute grant s).1,(execute grant s).2) := by
  rw [verifyGrantThen,grantChecks_of_not_panic K env grant ctx h]
  cases codeError K env grant ctx <;> rfl

theorem verifyGrantThen_panic {σ : Type} (execute : Grant → σ → EffectOutcome × σ) (s : σ)
    (h : Panics K env grant ctx) : verifyGrantThen K env grant ctx execute s=(.error .panic,s) := by
  rw [verifyGrantThen,grantChecks_panic K env grant ctx h]

/-- A panic is neither an execution nor an error value. -/
theorem not_exactly_of_panic (h : Panics K env grant ctx) : ¬ExactlyWhenAuthorised K env grant ctx := by
  intro hx
  obtain ⟨hyes,hno⟩ := hx Unit (fun _ s => (.Refused,s)) ()
  by_cases ha : Authorised K env grant ctx
  · have he := hyes ha
    rw [verifyGrantThen_panic K env grant ctx _ _ h] at he
    cases congrArg Prod.fst he
  · obtain ⟨e,he⟩ := hno ha
    rw [verifyGrantThen_panic K env grant ctx _ _ h] at he
    cases congrArg Prod.fst he

/-- The callback is run exactly for the authorised grants, unless the expiry
arithmetic panics. -/
theorem executes_exactly_iff : ExactlyWhenAuthorised K env grant ctx ↔ ¬Panics K env grant ctx := by
  constructor
  · intro hx h
    exact not_exactly_of_panic K env grant ctx h hx
  · intro h σ execute s
    rw [verifyGrantThen_eq K env grant ctx _ _ h,authorised_iff_codeError]
    cases codeError K env grant ctx with
    | none => exact ⟨fun _ => rfl,fun hn => absurd rfl hn⟩
    | some e => exact ⟨fun hn => (nomatch hn),fun _ => ⟨e,rfl⟩⟩

end Verdict

section Lookups

variable (K : Crypto) (env : Envelope) (grant : Grant) (ctx : GrantContext)

/-- Of the sender table a grant reads the record of its id. -/
theorem grantChecks_congr (t : SenderTable) (h : t.lookup grant.intentId=ctx.senderTable.lookup grant.intentId) :
    grantChecks K env grant { ctx with senderTable := t }=grantChecks K env grant ctx := by
  simp only [grantChecks,h]

theorem grantChecks_of_unmatched (hv : grant.version=2) (hl : grant.intentId.length=lenIntentId)
    (h : pendingOf ctx grant=none ∨ recordOf ctx grant=none) :
    grantChecks K env grant ctx=.error (.err .NoMatchingIntent) := by
  have hversion : fails (grant.version≠2) VerifyError.BadVersion=none := (fails_eq_none _ _).mpr (not_not.mpr hv)
  have hlen : fails (grant.intentId.length≠lenIntentId) VerifyError.BadEnvelopeBinding=none :=
    (fails_eq_none _ _).mpr (not_not.mpr hl)
  have hcheck : intentCheck grant ctx=some .NoMatchingIntent := if_pos h
  rw [grantChecks_eq,codeChecks,hversion,hlen,hcheck]
  rfl

theorem grantChecks_of_version (hv : grant.version≠2) :
    grantChecks K env grant ctx=.error (.err .BadVersion) := by
  have hversion : fails (grant.version≠2) VerifyError.BadVersion=some .BadVersion := if_pos hv
  rw [grantChecks_eq,codeChecks,hversion]
  rfl

theorem fails_ne (b : Prop) [Decidable b] (e e' : VerifyError) (h : e≠e') : fails b e≠some e' := by
  rw [fails]
  split
  · exact fun he => h (Option.some.inj he)
  · simp

theorem verifySignedErr_ne (tag : UInt8) (tbs sig pubkey : Bytes) :
    verifySignedErr K tag tbs sig pubkey≠some .NoMatchingIntent := by
  rw [verifySignedErr]
  split_ifs <;> simp

theorem certCheck_ne (cert : Cert) (role : UInt8) (pubkey : Bytes) (isRevoked : Bytes → Bool)
    (bad revoked e : VerifyError) (hb : bad≠e) (hr : revoked≠e) :
    certCheck cert role pubkey isRevoked bad revoked≠some e := by
  rw [certCheck]
  split
  · exact fun he => hb (Option.some.inj he)
  · exact fails_ne _ _ _ hr

theorem bind_fails_ne {α : Type} (o : Option α) (b : α → Prop) [∀a,Decidable (b a)] (e e' : VerifyError)
    (h : e≠e') : o.bind (fun a => fails (b a) e)≠some e' := by
  cases o with
  | none => simp
  | some a => exact fails_ne _ _ _ h

theorem firstFailing_mem (cs : List (Option VerifyError)) (e : VerifyError) (h : firstFailing cs=some e) :
    some e∈cs := by
  induction cs with
  | nil => cases h
  | cons c cs ih =>
    cases c with
    | none => exact List.mem_cons_of_mem _ (ih h)
    | some e' =>
      cases h
      exact List.mem_cons_self

theorem codeChecks_ne (hp : pendingOf ctx grant≠none) (hr : recordOf ctx grant≠none) :
    firstFailing (codeChecks K env grant ctx)≠some .NoMatchingIntent := by
  have hcheck : intentCheck grant ctx=none := if_neg (not_or.mpr ⟨hp,hr⟩)
  intro h
  have hm := firstFailing_mem _ _ h
  simp only [codeChecks,earlyChecks,recordChecks,hcheck,List.mem_cons,List.mem_append,List.not_mem_nil,
    or_false] at hm
  obtain hm|hm|hm|hm|hm := hm
  · exact fails_ne _ _ _ (by simp) hm.symm
  · exact fails_ne _ _ _ (by simp) hm.symm
  · cases hm
  · obtain hm|hm|hm|hm|hm|hm|hm|hm := hm
    · exact fails_ne _ _ _ (by simp) hm.symm
    · exact verifySignedErr_ne _ _ _ _ _ hm.symm
    · exact certCheck_ne _ _ _ _ _ _ _ (by simp) (by simp) hm.symm
    · exact fails_ne _ _ _ (by simp) hm.symm
    · exact certCheck_ne _ _ _ _ _ _ _ (by simp) (by simp) hm.symm
    · exact fails_ne _ _ _ (by simp) hm.symm
    · exact fails_ne _ _ _ (by simp) hm.symm
    · exact bind_fails_ne _ _ _ _ (by simp) hm.symm
  · obtain hm|hm := hm
    · exact bind_fails_ne _ _ _ _ (by simp) hm.symm
    · exact bind_fails_ne _ _ _ _ (by simp) hm.symm

theorem lateChecks_ne : firstFailing (lateChecks grant ctx)≠some .NoMatchingIntent := by
  intro h
  have hm := firstFailing_mem _ _ h
  simp only [lateChecks,List.mem_cons,List.not_mem_nil,or_false] at hm
  obtain hm|hm := hm
  · exact fails_ne _ _ _ (by simp) hm.symm
  · exact fails_ne _ _ _ (by simp) hm.symm

/-- A grant with a pending intent and a record of it is not refused for want of a match. -/
theorem grantChecks_of_matched (hp : pendingOf ctx grant≠none) (hr : recordOf ctx grant≠none) :
    grantChecks K env grant ctx≠.error (.err .NoMatchingIntent) := by
  by_cases hpn : Panics K env grant ctx
  · rw [grantChecks_panic K env grant ctx hpn]
    simp
  have hcode : codeError K env grant ctx≠some .NoMatchingIntent := by
    rw [codeError]
    cases hc : firstFailing (codeChecks K env grant ctx) with
    | some e =>
      rw [Option.some_or,← hc]
      exact codeChecks_ne K env grant ctx hp hr
    | none =>
      rw [Option.none_or]
      exact lateChecks_ne grant ctx
  rw [grantChecks_of_not_panic K env grant ctx hpn]
  cases he : codeError K env grant ctx with
  | none => simp [refuse]
  | some e =>
    rw [he] at hcode
    intro h
    cases h
    exact hcode rfl

end Lookups

def nodeKey : Bytes := beBytes 32 0x8a88e3dd7409f195fd52db2d3cba5d72ca6709bf1d94121bf3748801b40f6f5c

def peerKey : Bytes := beBytes 32 0x8139770ea87d175f56a35466c34c7ecccb8d8a91b4ee37a25df60f5b8fc9b394

/-- `bol:d8ca521a7ed92634/a/b`, a resource of the node. -/
def sampleResource : Bytes := beBytes 24 0x626f6c3a643863613532316137656439323633342f612f62

def sampleAction : Bytes := [7]

def nodeDigest : Bytes := beBytes 32 0xd8ca521a7ed9263464a2d969599ac3301403a61daf220a50aad2db078a867ea5

def resourceDigest : Bytes := beBytes 32 0xf7e2b28f351168c635a2eb31f33ee989c6e14866c3666f56dcba7a5f9fee7d68

def sampleActionDigest : Bytes := beBytes 32 0x6b821f55cab354e67d82cd1ae7c29b69dbdfc28072eb2e0e375e9ad798fedc70

def sampleIntent : Codec.Intent where
  intentId := List.replicate 16 0x11
  resourceId := sampleResource
  action := sampleAction
  rationale := []

def unsignedGrant : Grant where
  version := 2
  grantId := List.replicate 16 0x22
  intentId := sampleIntent.intentId
  approver := peerKey
  subject := peerKey
  executor := nodeKey
  resourceId := sampleResource
  actionDigest := sampleActionDigest
  notAfter := 1060000
  tbs := []
  sig := []

/-- A grant of the peer to itself, for one minute. -/
def sampleGrant : Grant :=
  { unsignedGrant with
    tbs := encodeGrant unsignedGrant
    sig := beBytes 32 0xcd8304a17db34c0ddb45789c42e6919778ef1a476005f502b76ef4ff32dcd21c++
      beBytes 32 0x6d7bc5e780344cdfd4cca97b7e0ca0b87d4515dc9df09ab83837d17e2ec7a506 }

def unsignedEnvelope (seq : UInt64) (bodyType : UInt8) (body : Bytes) : Envelope where
  version := 1
  channelId := List.replicate 32 0
  sender := peerKey
  seq
  parentCount := 0
  parents := []
  ts := 1000000
  bodyType
  body
  tbs := []
  sig := []

def intentEnvelope : Envelope :=
  let e := unsignedEnvelope 1 bodyIntent (encodeIntent sampleIntent)
  { e with
    tbs := encodeEnvelope e
    sig := beBytes 32 0x2a9b0c29844549a11b26389ae84c78f9995d8dfad893c4e5cf93f967503d5202++
      beBytes 32 0x506a518e94bff07ffe4f361b55da52b25264b8b629bf6e984ecf30cb462a7808 }

def grantEnvelope : Envelope :=
  let e := unsignedEnvelope 2 bodyGrant (encodeGrant sampleGrant)
  { e with
    tbs := encodeEnvelope e
    sig := beBytes 32 0x86a60c083205271e9c17cb3e4acd19afbd6700ceed6b739616ae2f142265f17a++
      beBytes 32 0x5befa487bc6e2057ff820926c60205f76b775820d88d3df295f6966b9c91d804 }

/-- The peer's certificate: both roles, and one scope for the resource. -/
def sampleCert : Cert where
  version := 3
  roleBits := roleAgent|||roleApprover
  sigPubkey := peerKey
  kexPubkey := List.replicate 32 0
  notBefore := 0
  notAfter := 2000000
  name := []
  scopeCount := 1
  scopeIds := resourceDigest.take lenScopeId
  caSigCount := 1
  caSigs := List.replicate 96 0
  tbs := []

/-- The digests and the verified signatures of the sample messages. -/
def sampleCrypto : Crypto where
  blake2s bs := fixed 32
    (if bs=nodeKey then nodeDigest
     else if bs=sampleResource then resourceDigest
     else if bs=sampleAction then sampleActionDigest
     else [])
  ed25519 key msg sig := decide (key=peerKey ∧
    (msg,sig)∈[(domainGrant::sampleGrant.tbs,sampleGrant.sig),
      (domainEnvelope::intentEnvelope.tbs,intentEnvelope.sig),
      (domainEnvelope::grantEnvelope.tbs,grantEnvelope.sig)])

/-- The tables after the intent was admitted, and no bound on the lifetime. -/
def sampleContext : GrantContext where
  ownPubkey := nodeKey
  approverCert := sampleCert
  subjectCert := sampleCert
  intentTable := Prod.snd <|
    Table.new.admit (fixed 16 sampleIntent.intentId) (fixed 256 sampleResource) 24 (by decide) 1000000
  senderTable := ⟨[⟨fixed 16 sampleIntent.intentId,fixed 32 peerKey,fixed 512 sampleAction,1,by decide⟩]⟩
  nowMs := 1000000
  firstReceiptMs := 1000000
  tMaxS := 0xffffffffffffffff
  tRecvS := 300
  alreadyConsumed _ _ _ := false
  isRevoked _ := false

/-- An authorised grant is not executed when the bound on its lifetime is the
largest number of seconds. -/
theorem unbounded_lifetime_panics :
    Authorised sampleCrypto grantEnvelope sampleGrant sampleContext ∧
      ¬ExactlyWhenAuthorised sampleCrypto grantEnvelope sampleGrant sampleContext := by
  have hm : Matched sampleCrypto grantEnvelope sampleGrant sampleContext :=
    (matched_iff _ _ _ _).mpr (by decide +kernel)
  have ht : InTime sampleGrant sampleContext := by decide
  have ho : ExpiryOverflows sampleGrant sampleContext := by decide
  exact ⟨⟨hm,ht,rfl⟩,not_exactly_of_panic _ _ _ _ ⟨hm,ho⟩⟩

section Precedence

variable (K : Crypto) (env : Envelope) (grant : Grant) (ctx : GrantContext)

/-- A returned error is the one of the first failing check in the normative order. -/
def PrecedenceKept : Prop :=
  ∀(σ : Type) (execute : Grant → σ → EffectOutcome × σ) (s : σ) (e : VerifyError),
    (verifyGrantThen K env grant ctx execute s).1=.error (.err e) →
      firstFailing (normativeChecks K env grant ctx)=some e

/-- A record of the intent is missing and one of the checks 1 to 6 fails too. -/
def Hoisted : Prop :=
  grant.version=2 ∧ grant.intentId.length=lenIntentId ∧
    (pendingOf ctx grant=none ∨ recordOf ctx grant=none) ∧ ∃c∈earlyChecks K env grant ctx,c≠none

theorem firstFailing_cons (c : Option VerifyError) (cs : List (Option VerifyError)) :
    firstFailing (c::cs)=c.or (firstFailing cs) := by
  cases c <;> rfl

theorem mem_of_firstFailing (cs : List (Option VerifyError)) (e : VerifyError)
    (h : firstFailing cs=some e) : some e∈cs := by
  induction cs with
  | nil => cases h
  | cons c cs ih =>
    cases c with
    | some a => exact h ▸ List.mem_cons_self
    | none => exact List.mem_cons_of_mem _ (ih h)

theorem early_of_malformed (h : grant.intentId.length≠lenIntentId) :
    firstFailing (earlyChecks K env grant ctx)=some .BadEnvelopeBinding := by
  rw [earlyChecks,firstFailing_cons,fails,if_pos (Or.inl h)]
  rfl

/-- `NoMatchingIntent` is the error of check 7 only. -/
theorem early_ne_noMatchingIntent :
    firstFailing (earlyChecks K env grant ctx)≠some .NoMatchingIntent := by
  intro h
  have hm := mem_of_firstFailing _ _ h
  simp only [earlyChecks,List.mem_cons,List.not_mem_nil,or_false] at hm
  obtain h|h|h|h|h|h|h|h := hm
  · simp [fails] at h
  · rw [verifySignedErr] at h
    split_ifs at h <;> cases h
  · rw [certCheck,fails] at h
    split_ifs at h <;> cases h
  · simp [scopeCheck,fails] at h
  · rw [certCheck,fails] at h
    split_ifs at h <;> cases h
  · simp [scopeCheck,fails] at h
  · simp [fails] at h
  · cases hr : recordOf ctx grant with
    | none => simp [hr] at h
    | some r => simp [hr,fails] at h

/-- The two orders agree wherever no late lookup comes in front of a failing check. -/
theorem codeError_of_not_hoisted (h : ¬Hoisted K env grant ctx) :
    codeError K env grant ctx=firstFailing (normativeChecks K env grant ctx) := by
  simp only [codeError,codeChecks,normativeChecks,firstFailing_cons,firstFailing_append,Option.or_assoc]
  by_cases hv : grant.version=2
  · by_cases hl : grant.intentId.length=lenIntentId
    · by_cases hi : pendingOf ctx grant=none ∨ recordOf ctx grant=none
      · have he : firstFailing (earlyChecks K env grant ctx)=none := by
          rw [firstFailing_eq_none]
          intro c hc
          by_contra hne
          exact h ⟨hv,hl,hi,c,hc,hne⟩
        simp [intentCheck,fails,hv,hl,hi,he]
      · simp [intentCheck,fails,hv,hl,hi]
    · simp [fails,hl,early_of_malformed K env grant ctx hl]
  · simp [fails,hv]

theorem codeError_of_hoisted (h : Hoisted K env grant ctx) :
    codeError K env grant ctx=some .NoMatchingIntent := by
  obtain ⟨hv,hl,hi,_⟩ := h
  simp [codeError,codeChecks,firstFailing_cons,fails,hv,hl,intentCheck,hi]

theorem normative_of_hoisted (h : Hoisted K env grant ctx) :
    firstFailing (normativeChecks K env grant ctx)≠some .NoMatchingIntent := by
  obtain ⟨hv,_,_,c,hc,hne⟩ := h
  have he := early_ne_noMatchingIntent K env grant ctx
  cases hf : firstFailing (earlyChecks K env grant ctx) with
  | none => exact absurd ((firstFailing_eq_none _).mp hf c hc) hne
  | some e =>
    rw [hf] at he
    simpa [normativeChecks,firstFailing_cons,firstFailing_append,fails,hv,hf] using he

theorem not_panics_of_hoisted (h : Hoisted K env grant ctx) : ¬Panics K env grant ctx := by
  intro hp
  have hc := (matched_iff K env grant ctx).mp hp.1
  obtain ⟨hv,hl,hi,_⟩ := h
  simp [codeChecks,firstFailing_cons,fails,hv,hl,intentCheck,hi] at hc

/-- The reported error is the normative one, unless a lookup of check 7 fails in
front of another failing check. -/
theorem precedence_kept_iff : PrecedenceKept K env grant ctx ↔ ¬Hoisted K env grant ctx := by
  constructor
  · intro hk h
    have hp := not_panics_of_hoisted K env grant ctx h
    apply normative_of_hoisted K env grant ctx h
    apply hk Unit (fun _ s => (.Refused,s)) ()
    rw [verifyGrantThen_eq K env grant ctx _ _ hp,codeError_of_hoisted K env grant ctx h]
  · intro h σ execute s e he
    rw [← codeError_of_not_hoisted K env grant ctx h]
    by_cases hp : Panics K env grant ctx
    · rw [verifyGrantThen_panic K env grant ctx _ _ hp] at he
      cases he
    · rw [verifyGrantThen_eq K env grant ctx _ _ hp] at he
      cases hc : codeError K env grant ctx with
      | none =>
        rw [hc] at he
        cases he
      | some a =>
        rw [hc] at he
        cases he
        rfl

end Precedence

/-- A grant in an intent envelope, with no pending intent: checks 1 and 7 both fail,
and the error is that of check 7. -/
theorem lookup_error_first :
    ¬PrecedenceKept sampleCrypto intentEnvelope sampleGrant { sampleContext with intentTable := Table.new } := by
  intro h
  have he := h Unit (fun _ s => (.Refused,s)) () .NoMatchingIntent (by decide +kernel)
  revert he
  decide +kernel

end Bolina.Transport
