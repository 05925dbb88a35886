import Bolina.Control.PostIntent
import Bolina.Framework.Lockstep
import Bolina.Transport.DispatchRun

namespace Bolina.Control

open Codec Intent Transport Lockstep BigEndian

/-- The answer to a step, with the effects of a message. -/
inductive Reply where
  | dispatched (res : Except (Abort DispatchError) Outcome) (effects : List (Grant × EffectOutcome))
  | swept (collapsed : Option Nat)
  deriving DecidableEq

def respond (K : Crypto) (d : Dispatch) : RunStep → Reply × Dispatch
  | .dispatch c =>
    let r := d.dispatch K c.envBytes c.hooks c.nowMs []
    (.dispatched r.1 r.2.2,r.2.1)
  | .expire nowMs =>
    match d.intentTable.expireTimeouts nowMs with
    | none => (.swept none,d)
    | some (n,intentTable) => (.swept (some n),{ d with intentTable })

/-- The step admits an intent under this id. -/
def Readmits (K : Crypto) (intentId : FixedBytes 16) (d : Dispatch) : RunStep → Prop
  | .dispatch c => ∃env i canonical,Proposes K d c.envBytes env i canonical ∧ fixed 16 i.intentId=intentId
  | .expire _ => False

/-- A grant for a pending intent of which there is no sender record, up to the lookup. -/
structure Unrecorded (K : Crypto) (intentId : FixedBytes 16) (d : Dispatch) (c : Call) (env : Envelope)
    (grant : Grant) (cert : Cert) : Prop where
  signed : Signed K c.envBytes env
  body : env.bodyType=bodyGrant
  parses : parseGrant env.body=.ok grant
  known : c.certForSender env.sender=some cert
  version : grant.version=2
  named : grant.intentId=intentId.toList
  pending : d.intentTable.pendingEntry intentId≠none
  missing : d.senderTable.lookup grant.intentId=none

/-- The step hands over no such grant. -/
def Recorded (K : Crypto) (intentId : FixedBytes 16) (d : Dispatch) : RunStep → Prop
  | .dispatch c => ∀env grant cert,¬Unrecorded K intentId d c env grant cert
  | .expire _ => True

/-- The second dispatcher is the first with one more sender record, behind the records
that were there. -/
structure Behind (r : SenderEntry) (d w : Dispatch) : Prop where
  tables : w={ d with senderTable := w.senderTable }
  lookup : ∀id,w.senderTable.lookup id=
    (d.senderTable.lookup id).or (if r.intentId.toList=id then some r else none)

section Answers

variable {K : Crypto} {d w : Dispatch} {c : Call} {r : SenderEntry}

theorem pendingOf_grantContext {σ : Type} (d : Dispatch) (hooks : Hooks σ) (s : σ) (cert : Cert)
    (nowMs : UInt64) (grant : Grant) (intentId : FixedBytes 16) (h : grant.intentId=intentId.toList) :
    pendingOf (d.grantContext hooks s cert nowMs) grant=d.intentTable.pendingEntry intentId := by
  have hl : grant.intentId.length=lenIntentId := by
    rw [h]
    exact intentId.toList_length
  rw [pendingOf,if_pos hl,h,fixed_toList]
  rfl

/-- A grant dispatch reads of the dispatcher what its checks read. -/
theorem dispatchGrant_congr {env : Envelope}
    (h : ∀grant cert,parseGrant env.body=.ok grant → c.certForSender env.sender=some cert →
      grantChecks K env grant (w.grantContext c.hooks [] cert c.nowMs)=
        grantChecks K env grant (d.grantContext c.hooks [] cert c.nowMs)) :
    w.dispatchGrant K env c.hooks c.nowMs []=d.dispatchGrant K env c.hooks c.nowMs [] := by
  rw [Dispatch.dispatchGrant,Dispatch.dispatchGrant]
  cases hg : parseGrant env.body with
  | error e => rfl
  | ok grant =>
    cases hc : c.hooks.certForSender env.sender with
    | none => rfl
    | some cert => simp only [verifyGrantThen,h grant cert hg hc]

/-- A grant that finds the record missing on one side and not on the other is
answered differently. -/
theorem dispatchGrant_of_unrecorded {env : Envelope} {grant : Grant} {cert : Cert} (h : Behind r d w)
    (hu : Unrecorded K r.intentId d c env grant cert) :
    d.dispatchGrant K env c.hooks c.nowMs []≠w.dispatchGrant K env c.hooks c.nowMs [] := by
  have hl : grant.intentId.length=lenIntentId := by
    rw [hu.named]
    exact r.intentId.toList_length
  have hd : d.dispatchGrant K env c.hooks c.nowMs []=(.error (.err (.Verify .NoMatchingIntent)),[]) := by
    have hg := grantChecks_of_unmatched K env grant (d.grantContext c.hooks [] cert c.nowMs) hu.version hl
      (Or.inr hu.missing)
    have hc : c.hooks.certForSender env.sender=some cert := hu.known
    rw [Dispatch.dispatchGrant,hu.parses]
    simp only [hc,verifyGrantThen,hg]
  have hp : pendingOf (w.grantContext c.hooks [] cert c.nowMs) grant≠none := by
    rw [pendingOf_grantContext w c.hooks [] cert c.nowMs grant r.intentId hu.named,h.tables]
    exact hu.pending
  have hr : recordOf (w.grantContext c.hooks [] cert c.nowMs) grant≠none := by
    show w.senderTable.lookup grant.intentId≠none
    rw [h.lookup,hu.missing,if_pos hu.named.symm]
    simp
  have hg := grantChecks_of_matched K env grant _ hp hr
  intro he
  have hc : c.hooks.certForSender env.sender=some cert := hu.known
  rw [hd,Dispatch.dispatchGrant,hu.parses] at he
  simp only [hc,verifyGrantThen] at he
  cases hk : grantChecks K env grant (w.grantContext c.hooks [] cert c.nowMs) with
  | ok _ =>
    rw [hk] at he
    cases he
  | error a =>
    rw [hk] at he
    cases a with
    | panic => cases he
    | err e =>
      cases he
      exact hg hk

theorem dispatchGrant_of_recorded {env : Envelope} (h : Behind r d w) (hs : Signed K c.envBytes env)
    (hb : env.bodyType=bodyGrant) (hu : ∀grant cert,¬Unrecorded K r.intentId d c env grant cert) :
    w.dispatchGrant K env c.hooks c.nowMs []=d.dispatchGrant K env c.hooks c.nowMs [] := by
  apply dispatchGrant_congr
  intro grant cert hg hc
  have hctx : w.grantContext c.hooks [] cert c.nowMs=
      { d.grantContext c.hooks [] cert c.nowMs with senderTable := w.senderTable } := by
    rw [h.tables]
    rfl
  have hl : grant.intentId.length=lenIntentId := (parseGrant_widths env.body grant hg).2
  by_cases hsame : w.senderTable.lookup grant.intentId=d.senderTable.lookup grant.intentId
  · rw [hctx]
    exact grantChecks_congr K env grant _ w.senderTable hsame
  · by_cases hv : grant.version=2
    · -- the lookups differ, so the record of this id is the one that is missing
      have hlookup := h.lookup grant.intentId
      have hnamed : r.intentId.toList=grant.intentId := by
        by_contra hne
        rw [if_neg hne,Option.or_none] at hlookup
        exact hsame hlookup
      have hmissing : d.senderTable.lookup grant.intentId=none := by
        cases hd : d.senderTable.lookup grant.intentId with
        | none => rfl
        | some e =>
          rw [hd,Option.some_or] at hlookup
          rw [hd] at hsame
          exact absurd hlookup hsame
      have hnone : d.intentTable.pendingEntry r.intentId=none := by
        by_contra hp
        exact hu grant cert ⟨hs,hb,hg,hc,hv,hnamed.symm,hp,hmissing⟩
      have hpd : pendingOf (d.grantContext c.hooks [] cert c.nowMs) grant=none :=
        (pendingOf_grantContext d c.hooks [] cert c.nowMs grant r.intentId hnamed.symm).trans hnone
      have hpw : pendingOf (w.grantContext c.hooks [] cert c.nowMs) grant=none := by
        rw [hctx]
        exact hpd
      rw [grantChecks_of_unmatched K env grant _ hv hl (Or.inl hpd),
        grantChecks_of_unmatched K env grant _ hv hl (Or.inl hpw)]
    · rw [grantChecks_of_version K env grant _ hv,grantChecks_of_version K env grant _ hv]

theorem behind_tables (h : Behind r d w) (resolver : Resolver) (intentTable : Table) (ownPubkey : Bytes) :
    Behind r ⟨resolver,intentTable,d.senderTable,ownPubkey⟩ ⟨resolver,intentTable,w.senderTable,ownPubkey⟩ :=
  ⟨rfl,h.lookup⟩

/-- A record of another id comes behind on both sides. -/
theorem behind_record {r' : SenderEntry} (h : Behind r d w) (hne : r'.intentId≠r.intentId) :
    Behind r (d.record r') (w.record r') := by
  constructor
  · rw [h.tables]
    rfl
  · intro id
    rw [lookup_record,lookup_record,h.lookup,Option.or_assoc,Option.or_assoc]
    congr 1
    by_cases hr : r.intentId.toList=id
    · have hr' : ¬r'.intentId.toList=id := by
        intro he
        apply hne
        rw [← fixed_toList r'.intentId,he,← hr,fixed_toList]
      rw [if_pos hr,if_neg hr',Option.or_none,Option.none_or]
    · rw [if_neg hr,Option.none_or,Option.or_none]

theorem respond_of_proposes {env : Envelope} {i : Codec.Intent} {canonical : Bytes} (h : Behind r d w)
    (hp : Proposes K d c.envBytes env i canonical) :
    (respond K d (.dispatch c)).1=(respond K w (.dispatch c)).1 ∧
      (fixed 16 i.intentId≠r.intentId →
        Behind r (respond K d (.dispatch c)).2 (respond K w (.dispatch c)).2) := by
  have hw : Proposes K w c.envBytes env i canonical := by
    rw [h.tables]
    exact ⟨hp.signed,hp.body,hp.parses,hp.width,hp.admissible⟩
  have hadm : Behind r (d.admitted i c.nowMs) (w.admitted i c.nowMs) := by
    rw [h.tables]
    exact behind_tables h _ _ _
  rw [respond,respond,dispatch_of_proposes hp,dispatch_of_proposes hw]
  by_cases hl : i.action.length ≤ senderMaxAction
  · simp only [dif_pos hl]
    exact ⟨trivial,fun hne => behind_record hadm hne⟩
  · simp only [dif_neg hl]
    exact ⟨trivial,fun _ => hadm⟩

theorem respond_of_refuses {env : Envelope} {refusal : Refusal} {cert : Cert} (h : Behind r d w)
    (hr : Refuses K c.envBytes c.hooks env refusal cert) :
    (respond K d (.dispatch c)).1=(respond K w (.dispatch c)).1 ∧
      Behind r (respond K d (.dispatch c)).2 (respond K w (.dispatch c)).2 := by
  rw [respond,respond,dispatch_of_refuses hr,dispatch_of_refuses hr]
  constructor
  · rw [h.tables]
  · show Behind r (d.withdrawn (fixed 16 refusal.intentId)) (w.withdrawn (fixed 16 refusal.intentId))
    rw [h.tables]
    exact behind_tables h _ _ _

theorem respond_of_grant {env : Envelope} (h : Behind r d w) (hs : Signed K c.envBytes env)
    (hb : env.bodyType=bodyGrant) :
    ((respond K d (.dispatch c)).1=(respond K w (.dispatch c)).1 ↔ Recorded K r.intentId d (.dispatch c)) ∧
      Behind r (respond K d (.dispatch c)).2 (respond K w (.dispatch c)).2 := by
  rw [respond,respond,dispatch_of_grant hs hb,dispatch_of_grant hs hb]
  refine ⟨?_,h⟩
  constructor
  · intro he env' grant cert hu
    rw [hs.unique hu.signed] at he
    obtain ⟨hres,heff⟩ := Reply.dispatched.inj he
    exact dispatchGrant_of_unrecorded h hu (Prod.ext hres heff)
  · intro hrec
    rw [dispatchGrant_of_recorded h hs hb (hrec env)]

theorem respond_of_other (h : Behind r d w) (hp : ∀env i canonical,¬Proposes K d c.envBytes env i canonical)
    (hr : ∀env refusal cert,¬Refuses K c.envBytes c.hooks env refusal cert)
    (hg : ∀env,Signed K c.envBytes env → env.bodyType≠bodyGrant) :
    (respond K d (.dispatch c)).1=(respond K w (.dispatch c)).1 ∧
      Behind r (respond K d (.dispatch c)).2 (respond K w (.dispatch c)).2 := by
  obtain ⟨res,hres,_⟩ := @dispatch_of_other _ K d c.envBytes c.hooks c.nowMs [] hp hr hg
  have hd : d.dispatch K c.envBytes c.hooks c.nowMs []=(res,d,[]) := hres d.senderTable
  have hw : w.dispatch K c.envBytes c.hooks c.nowMs []=(res,w,[]) := by
    rw [h.tables]
    exact hres w.senderTable
  rw [respond,respond,hd,hw]
  exact ⟨rfl,h⟩

theorem respond_expire (h : Behind r d w) (nowMs : UInt64) :
    (respond K d (.expire nowMs)).1=(respond K w (.expire nowMs)).1 ∧
      Behind r (respond K d (.expire nowMs)).2 (respond K w (.expire nowMs)).2 := by
  have ht : w.intentTable=d.intentTable := by
    rw [h.tables]
  rw [respond,respond,ht]
  cases d.intentTable.expireTimeouts nowMs with
  | none => exact ⟨rfl,h⟩
  | some nt =>
    refine ⟨rfl,?_⟩
    rw [h.tables]
    exact behind_tables h _ _ _

/-- The two dispatchers answer a step alike exactly when no grant misses the record,
and go on in step until the id is admitted again. -/
theorem coupled (K : Crypto) (r : SenderEntry) :
    Coupled (respond K) (respond K) (fun d x => ¬Readmits K r.intentId d x) (Recorded K r.intentId) (Behind r) := by
  have hstep : ∀d w x,Behind r d w →
      ((respond K d x).1=(respond K w x).1 ↔ Recorded K r.intentId d x) ∧
        (¬Readmits K r.intentId d x → Behind r (respond K d x).2 (respond K w x).2) := by
    intro d w x h
    cases x with
    | expire nowMs =>
      obtain ⟨he,hb⟩ := @respond_expire K d w r h nowMs
      exact ⟨⟨fun _ => trivial,fun _ => he⟩,fun _ => hb⟩
    | dispatch c =>
      have hrec : (∀env,Signed K c.envBytes env → env.bodyType≠bodyGrant) →
          Recorded K r.intentId d (.dispatch c) :=
        fun hbody env grant cert hu => hbody env hu.signed hu.body
      cases kind K d c.envBytes c.hooks with
      | grant env hs hb =>
        obtain ⟨he,hbehind⟩ := respond_of_grant h hs hb
        exact ⟨he,fun _ => hbehind⟩
      | proposes env i canonical hp =>
        obtain ⟨he,hbehind⟩ := respond_of_proposes h hp
        refine ⟨⟨fun _ => hrec hp.not_grant,fun _ => he⟩,fun hk => hbehind ?_⟩
        exact fun hid => hk ⟨env,i,canonical,hp,hid⟩
      | refuses env refusal cert hr =>
        obtain ⟨he,hbehind⟩ := respond_of_refuses h hr
        exact ⟨⟨fun _ => hrec hr.not_grant,fun _ => he⟩,fun _ => hbehind⟩
      | other hp hr hg =>
        obtain ⟨he,hbehind⟩ := respond_of_other h hp hr hg
        exact ⟨⟨fun _ => hrec hg,fun _ => he⟩,fun _ => hbehind⟩
  exact ⟨fun d w x h => (hstep d w x h).1,fun d w x h _ hk => (hstep d w x h).2 hk⟩

end Answers

section Agreement

variable (K : Crypto) (d : Dispatch) (body : List Char) (metrics : Metrics) (ring : EventRing) (c : Call)

/-- The dispatcher behind a post. -/
def posted : Dispatch :=
  { d with intentTable := (postIntent body d.resolver d.intentTable metrics ring c.nowMs).2.1 }

/-- The dispatcher behind a message. -/
def wired : Dispatch := (respond K d (.dispatch c)).2

/-- One intent, as a post that is accepted and as an envelope from its subject. -/
structure SameIntent (p : Posted) (env : Envelope) (i : Codec.Intent) : Prop where
  accepted : (postIntent body d.resolver d.intentTable metrics ring c.nowMs).1=.ok .Accepted
  reads : readPosted body=some p
  signed : Signed K c.envBytes env
  bodyType : env.bodyType=bodyIntent
  parses : parseIntent env.body=.ok i
  sender : env.sender=hexBytes p.subject
  intentId : i.intentId=p.intentId.toList
  resourceId : i.resourceId=p.resource
  action : i.action=p.action
  bounded : p.action.length ≤ senderMaxAction

/-- Every step behind the two admissions is answered alike, up to the next admission
under the id. -/
def AdmissionsAgree : Prop :=
  ∀p env i,SameIntent K d body metrics ring c p env i →
    ∀steps,Alike (respond K) (respond K) (fun d x => ¬Readmits K p.intentId d x)
      (posted d body metrics ring c) (wired K d c) steps

variable {K d body metrics ring c} {p : Posted} {env : Envelope} {i : Codec.Intent}

/-- The envelope leaves one sender record that the post does not. -/
theorem SameIntent.behind (h : SameIntent K d body metrics ring c p env i) :
    ∃r,r.intentId=p.intentId ∧ Behind r (posted d body metrics ring c) (wired K d c) := by
  obtain ⟨p',canonical,hp,hadm,htable⟩ := postIntent_accepted body d.resolver d.intentTable metrics ring c.nowMs
    h.accepted
  have hpp : p'=p := Option.some.inj (hp.symm.trans h.reads)
  subst hpp
  have hid : fixed 16 i.intentId=p'.intentId := by
    rw [h.intentId,fixed_toList]
  have hprop : Proposes K d c.envBytes env i canonical := by
    refine ⟨h.signed,h.bodyType,h.parses,?_,?_⟩
    · rw [h.intentId]
      exact p'.intentId.toList_length
    · rw [hid,h.resourceId]
      exact hadm
  have hl : i.action.length ≤ senderMaxAction := by
    rw [h.action]
    exact h.bounded
  have hwired : wired K d c=(d.admitted i c.nowMs).record (senderRecord env i hl) := by
    rw [wired,respond,dispatch_of_proposes hprop]
    simp only [dif_pos hl]
  have hposted : posted d body metrics ring c=d.admitted i c.nowMs := by
    rw [posted,htable,Dispatch.admitted,hid,h.resourceId]
  refine ⟨senderRecord env i hl,hid,?_⟩
  rw [hwired,hposted]
  exact ⟨rfl,lookup_record (senderRecord env i hl)⟩

/-- A posted intent and the same intent by envelope answer alike exactly as long as no
grant for it looks up its sender record. -/
theorem http_admission_agrees_iff (K : Crypto) (d : Dispatch) (body : List Char) (metrics : Metrics)
    (ring : EventRing) (c : Call) (p : Posted) (env : Envelope) (i : Codec.Intent)
    (h : SameIntent K d body metrics ring c p env i) (steps : List RunStep) :
    Alike (respond K) (respond K) (fun d x => ¬Readmits K p.intentId d x)
        (posted d body metrics ring c) (wired K d c) steps ↔
      MeetsWhile (fun d x => (respond K d x).2) (fun d x => ¬Readmits K p.intentId d x)
        (Recorded K p.intentId) (posted d body metrics ring c) steps := by
  obtain ⟨r,hid,hbehind⟩ := h.behind
  rw [← hid]
  exact (coupled K r).alike_iff _ _ steps hbehind

end Agreement

/-- The intent of the peer as a post. -/
def sampleBody : List Char := intentBody '1'

def samplePosted : Posted := ⟨fixed 16 sampleIntent.intentId,sampleResource,sampleAction,hexText peerKey⟩

def intentCall : Call := sampleCall (encodeEnvelope intentEnvelope) 1000000

theorem same_intent_sample : SameIntent sampleCrypto sampleDispatch sampleBody ⟨0⟩ EventRing.new intentCall
    samplePosted intentEnvelope sampleIntent where
  accepted := by decide +kernel
  reads := by decide +kernel
  signed := ⟨by decide +kernel,by decide +kernel⟩
  bodyType := rfl
  parses := by decide +kernel
  sender := by decide +kernel
  intentId := by decide +kernel
  resourceId := rfl
  action := rfl
  bounded := by decide +kernel

/-- Behind the sweep that takes the intent away a grant for it is answered alike. -/
theorem http_admission_agrees_swept :
    Alike (respond sampleCrypto) (respond sampleCrypto) (fun d x => ¬Readmits sampleCrypto samplePosted.intentId d x)
      (posted sampleDispatch sampleBody ⟨0⟩ EventRing.new intentCall)
      (wired sampleCrypto sampleDispatch intentCall)
      [.expire 2000000,.dispatch (sampleCall (encodeEnvelope grantEnvelope) 2000000)] := by
  apply (http_admission_agrees_iff sampleCrypto sampleDispatch sampleBody ⟨0⟩ EventRing.new intentCall
    samplePosted intentEnvelope sampleIntent same_intent_sample _).mpr
  have hswept : (respond sampleCrypto (posted sampleDispatch sampleBody ⟨0⟩ EventRing.new intentCall)
      (.expire 2000000)).2.intentTable.pendingEntry samplePosted.intentId=none := by decide +kernel
  exact ⟨trivial,fun _ => ⟨fun _ _ _ hu => hu.pending hswept,fun _ => trivial⟩⟩

/-- A grant that is executed for the intent by envelope finds no match for the posted one. -/
theorem posted_intent_without_record :
    ¬AdmissionsAgree sampleCrypto sampleDispatch sampleBody ⟨0⟩ EventRing.new intentCall := by
  intro h
  have hx := (h samplePosted intentEnvelope sampleIntent same_intent_sample
    [.dispatch (sampleCall (encodeEnvelope grantEnvelope) 1000000)]).1
  have hne : (respond sampleCrypto (posted sampleDispatch sampleBody ⟨0⟩ EventRing.new intentCall)
      (.dispatch (sampleCall (encodeEnvelope grantEnvelope) 1000000))).1≠
    (respond sampleCrypto (wired sampleCrypto sampleDispatch intentCall)
      (.dispatch (sampleCall (encodeEnvelope grantEnvelope) 1000000))).1 := by decide +kernel
  exact hne hx

end Bolina.Control
