import Bolina.Transport.DispatchRun

namespace Bolina.Transport

open Codec Intent GuardedRun BigEndian

/-- How often the effect has fired for an intent since its last admission. -/
def firedFor (intentId : FixedBytes 16) : List RunEvent → Nat
  | [] => 0
  | .admitted j _ _::log => if j=intentId then 0 else firedFor intentId log
  | .received _ _::log => firedFor intentId log
  | .executed g o::log =>
    (if g.intentId=intentId.toList ∧ o=.Fired then 1 else 0)+firedFor intentId log

/-- A grant with this id has been executed. -/
def used (grantId : Bytes) : List RunEvent → Bool
  | [] => false
  | .admitted _ _ _::log => used grantId log
  | .received _ _::log => used grantId log
  | .executed g _::log => g.grantId==grantId || used grantId log

/-- The call with the answers of a ledger that knows exactly the grant ids executed before. -/
def Call.withLedger (c : Call) (log : List RunEvent) : Call :=
  { c with alreadyConsumed := fun grantId _ _ => used grantId log }

def History.ledgered (s : History) : RunStep → RunStep
  | .dispatch c => .dispatch (c.withLedger s.log)
  | .expire nowMs => .expire nowMs

def History.ledgeredStep (K : Crypto) (s : History) (x : RunStep) : History := s.step K (s.ledgered x)

/-- At most one effect for every admission. -/
def FiredOnce (s : History) : Prop := ∀intentId,firedFor intentId s.log≤1

/-- The message carries this grant, and the grant passes checks 0 to 10. -/
def Brings (K : Crypto) (s : History) (c : Call) (g : Grant) : Prop :=
  ∃env cert,parseEnvelope c.envBytes=.ok env ∧ verifyEnvelope K env=none ∧ parseGrant env.body=.ok g ∧
    c.certForSender env.sender=some cert ∧
    Matched K env g (s.dispatch.grantContext c.hooks [] cert c.nowMs) ∧
    InTime g (s.dispatch.grantContext c.hooks [] cert c.nowMs) ∧
    ¬ExpiryOverflows g (s.dispatch.grantContext c.hooks [] cert c.nowMs)

/-- Once an effect has fired for a pending intent, no grant with an unused id that
passes checks 0 to 10 fires for it again. -/
def OneGrantId (K : Crypto) (s : History) : RunStep → Prop
  | .dispatch c =>
    ∀g,Brings K s c g → c.effect g=.Fired → 0 < firedFor (fixed 16 g.intentId) s.log →
      used g.grantId s.log=true
  | .expire _ => True

section OneEffect

variable {K : Crypto} {s : History} {c : Call} {g : Grant}

/-- A grant is executed when it passes checks 0 to 10 and its id has not been used. -/
theorem executes_iff_brings :
    Executes K s.dispatch c.envBytes (c.withLedger s.log).hooks c.nowMs [] g ↔
      Brings K s c g ∧ used g.grantId s.log=false := by
  constructor
  · intro h
    obtain ⟨env,cert,hp,hv,hg,hc,ha,ho⟩ := h.passes
    have hm := ha.toMatched.withLedger c.alreadyConsumed
    exact ⟨⟨env,cert,hp,hv,hg,hc,hm,ha.inTime,ho⟩,ha.fresh⟩
  · intro h
    obtain ⟨⟨env,cert,hp,hv,hg,hc,hm,ht,ho⟩,hfresh⟩ := h
    have hm' := hm.withLedger (fun grantId _ _ => used grantId s.log)
    exact ⟨env,cert,hp,hv,hg,hc,⟨hm',ht,hfresh⟩,ho⟩

theorem Brings.body {env : Envelope} (h : Brings K s c g) (hs : Signed K c.envBytes env) :
    env.bodyType=bodyGrant ∧ parseGrant env.body=.ok g := by
  obtain ⟨env',cert,hp,_,hg,_,hm,_⟩ := h
  rw [hs.parses] at hp
  cases hp
  exact ⟨hm.bodyType,hg⟩

theorem Brings.unique {g' : Grant} (h : Brings K s c g) (h' : Brings K s c g') : g'=g := by
  obtain ⟨env,cert,hp,hv,hg,_⟩ := h
  have hg' := (h'.body ⟨hp,hv⟩).2
  rw [hg] at hg'
  cases hg'
  rfl

theorem Brings.intentId (h : Brings K s c g) : (fixed 16 g.intentId).toList=g.intentId := by
  obtain ⟨env,cert,_,_,hg,_⟩ := h
  exact toList_fixed g.intentId (parseGrant_widths env.body g hg).2

theorem firedFor_received (intentId : FixedBytes 16) (gs : List Grant) (nowMs : UInt64) (log : List RunEvent) :
    firedFor intentId (gs.map (fun g => RunEvent.received g nowMs)++log)=firedFor intentId log := by
  induction gs with
  | nil => rfl
  | cons g gs ih => exact ih

/-- A message that brings no grant is within the condition. -/
theorem oneGrantId_of_body {env : Envelope} (hs : Signed K c.envBytes env) (hb : env.bodyType≠bodyGrant) :
    OneGrantId K s (.dispatch c) := by
  intro g hg
  exact absurd (hg.body hs).1 hb

/-- An execution keeps the bound exactly when it is the first to fire. -/
theorem firedOnce_of_executes (hs : FiredOnce s) (hg : Brings K s c g) (hu : used g.grantId s.log=false) :
    FiredOnce ⟨s.dispatch,.executed g (c.effect g)::.received g c.nowMs::s.log⟩ ↔
      OneGrantId K s (.dispatch c) := by
  constructor
  · intro h g' hg' hfire hpos
    exfalso
    rw [hg.unique hg'] at hfire hpos
    have hone := h (fixed 16 g.intentId)
    have hcount : firedFor (fixed 16 g.intentId) (.executed g (c.effect g)::.received g c.nowMs::s.log)=
        1+firedFor (fixed 16 g.intentId) s.log := by
      show (if g.intentId=(fixed 16 g.intentId).toList ∧ c.effect g=.Fired then 1 else 0)+_=_
      rw [if_pos ⟨hg.intentId.symm,hfire⟩]
      rfl
    have hone' : firedFor (fixed 16 g.intentId) (.executed g (c.effect g)::.received g c.nowMs::s.log)≤1 := hone
    omega
  · intro h intentId
    show (if g.intentId=intentId.toList ∧ c.effect g=.Fired then 1 else 0)+firedFor intentId s.log≤1
    have hold := hs intentId
    by_cases hc : g.intentId=intentId.toList ∧ c.effect g=.Fired
    · rw [if_pos hc]
      have hid : fixed 16 g.intentId=intentId := by
        rw [hc.1]
        exact fixed_toList intentId
      have hzero : firedFor intentId s.log=0 := by
        by_contra hne
        have hpos : 0 < firedFor (fixed 16 g.intentId) s.log := by
          rw [hid]
          omega
        have hused := h g hg hc.2 hpos
        rw [hu] at hused
        cases hused
      omega
    · rw [if_neg hc]
      omega

theorem firedOnce_step (s : History) (x : RunStep) (hs : FiredOnce s) :
    FiredOnce (s.ledgeredStep K x) ↔ OneGrantId K s x := by
  cases x with
  | expire nowMs =>
    refine ⟨fun _ => trivial,fun _ => ?_⟩
    show FiredOnce (s.step K (.expire nowMs))
    rw [History.step]
    cases s.dispatch.intentTable.expireTimeouts nowMs with
    | none => exact hs
    | some r => exact hs
  | dispatch c =>
    show FiredOnce (s.step K (.dispatch (c.withLedger s.log))) ↔ _
    cases happens K s.dispatch c.envBytes (c.withLedger s.log).hooks c.nowMs [] with
    | proposes env i canonical h =>
      have hstep := @step_of_proposes K s (c.withLedger s.log) env i canonical h
      rw [hstep]
      refine ⟨fun _ => oneGrantId_of_body h.signed (h.not_grant env h.signed),fun _ => ?_⟩
      intro intentId
      show (if fixed 16 i.intentId=intentId then 0 else firedFor intentId s.log)≤1
      split
      · exact Nat.zero_le 1
      · exact hs intentId
    | executes g h =>
      obtain ⟨hg,hu⟩ := executes_iff_brings.mp h
      have hstep := @step_of_executes K s (c.withLedger s.log) g h
      rw [hstep]
      exact firedOnce_of_executes hs hg hu
    | refuses env refusal cert h =>
      have hstep := @step_of_refuses K s (c.withLedger s.log) env refusal cert h
      rw [hstep]
      exact ⟨fun _ => oneGrantId_of_body h.signed (h.not_grant env h.signed),fun _ => hs⟩
    | idle hp hx hr =>
      have hstep := @step_of_idle K s (c.withLedger s.log) hp hx hr
      rw [hstep]
      constructor
      · intro _ g hg _ _
        by_contra hu
        exact hx g (executes_iff_brings.mpr ⟨hg,by simpa using hu⟩)
      · intro _ intentId
        show firedFor intentId (_++s.log)≤1
        rw [firedFor_received]
        exact hs intentId

/-- Along a run the effect fires at most once for every admission exactly as long as
no second grant with an unused id passes the checks. -/
theorem fired_once_iff (K : Crypto) (resolver : Resolver) (ownPubkey : Bytes) (steps : List RunStep) :
    Always (History.ledgeredStep K) FiredOnce (History.start resolver ownPubkey) steps ↔
      Meets (History.ledgeredStep K) (OneGrantId K) (History.start resolver ownPubkey) steps :=
  @always_iff_meets _ _ (History.ledgeredStep K) (OneGrantId K) FiredOnce (fun _ => True)
    (fun _ _ _ => trivial) (fun s x _ hs => firedOnce_step s x hs) _ steps trivial (fun _ => Nat.zero_le 1)

end OneEffect

/-- A second grant for the intent, under an id of its own. -/
def secondGrant : Grant :=
  let g := { unsignedGrant with grantId := List.replicate 16 0x33 }
  { g with
    tbs := encodeGrant g
    sig := beBytes 32 0xdb4a69bfaab11ff0450cadc46272ff53476f3f792b48d54c754e71e670bc3168++
      beBytes 32 0x348f4708e04572b520f2f69b70878c0709ceb9d556e98a7e1376175974fc6e0a }

def secondGrantEnvelope : Envelope :=
  let e := unsignedEnvelope 4 bodyGrant (encodeGrant secondGrant)
  { e with
    tbs := encodeEnvelope e
    sig := beBytes 32 0x4beed9bedd31d22c80d5d64acd929566818ecea64104f228b5fee6586b6df7e8++
      beBytes 32 0xfa2a6016be1a9f1501ac667632ef4ab59e09f046da9538d531b5244994e4f805 }

def twoGrantCrypto : Crypto :=
  signing sampleCrypto [(peerKey,domainGrant::secondGrant.tbs,secondGrant.sig),
    (peerKey,domainEnvelope::secondGrantEnvelope.tbs,secondGrantEnvelope.sig)]

/-- The intent stays pending: its effect fires for both grants. -/
theorem fired_twice : ¬Always (History.ledgeredStep twoGrantCrypto) FiredOnce sampleHistory
    [.dispatch (sampleCall (encodeEnvelope intentEnvelope) 1000000),
      .dispatch (sampleCall (encodeEnvelope grantEnvelope) 1000001),
      .dispatch (sampleCall (encodeEnvelope secondGrantEnvelope) 1000002)] := by
  intro h
  have hlast := always_foldl sampleHistory _ h (fixed 16 sampleIntent.intentId)
  revert hlast
  decide +kernel

end Bolina.Transport
