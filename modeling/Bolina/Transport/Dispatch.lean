import Bolina.Transport.GrantVerdict
import Bolina.Transport.Resolver

namespace Bolina.Transport

open Codec Intent

def tMaxSDefault : UInt64 := 3600
def tRecvSDefault : UInt64 := 300

inductive DispatchError where
  | BadEnvelope
  | BadBody
  | UnsupportedBody
  | NoPendingIntent
  | UnknownSender
  | ActionTooLarge
  | DiskError
  | Verify (e : VerifyError)
  | Resolve (e : ResolveError)
  deriving DecidableEq,Repr

inductive Outcome where
  | IntentAdmitted
  | GrantExecuted
  | EffectRefused
  | RefusalApplied
  | Utterance
  | Control
  | Effect
  deriving DecidableEq,Repr

/-- The callbacks of the caller. `σ` is the state they close over. -/
structure Hooks (σ : Type) where
  executeEffect : Grant → σ → EffectOutcome × σ
  certForSender : Bytes → Option Cert
  onRejected : Bytes → σ → σ
  isRevoked : σ → Bytes → Bool
  alreadyConsumed : σ → Bytes → UInt64 → UInt64 → Bool

structure Dispatch where
  resolver : Resolver
  intentTable : Table
  senderTable : SenderTable
  ownPubkey : Bytes

/-- How a dispatch ends, the tables after it, and the state of the callbacks. -/
abbrev Dispatched (σ : Type) := Except (Abort DispatchError) Outcome × Dispatch × σ

def Dispatch.maxAction : Nat := senderMaxAction

def Dispatch.dispatchIntent (d : Dispatch) (env : Envelope) (nowMs : UInt64) :
    Except (Abort DispatchError) Outcome × Dispatch :=
  match parseIntent env.body with
  | .error _ => (.error (.err .BadBody),d)
  | .ok intent =>
    if intent.intentId.length≠lenIntentId then (.error (.err .BadBody),d)
    else
      match d.resolver.resolveAndAdmit d.intentTable (fixed 16 intent.intentId) intent.resourceId nowMs with
      | (.error e,intentTable) => (.error (.err (.Resolve e)),{ d with intentTable })
      | (.ok _,intentTable) =>
        -- the intent is in its table by now, whatever the size of its action
        if h : Dispatch.maxAction < intent.action.length then
          (.error (.err .ActionTooLarge),{ d with intentTable })
        else
          let sender := if env.sender.length=32 then env.sender else []
          let record : SenderEntry :=
            ⟨fixed 16 intent.intentId,fixed 32 sender,fixed 512 intent.action,intent.action.length,
              Nat.le_of_not_lt h⟩
          (.ok .IntentAdmitted,
            { d with intentTable,senderTable := ⟨d.senderTable.entries++[record]⟩ })

/-- One certificate stands for the approver and for the subject, and the first
receipt is now. -/
def Dispatch.grantContext {σ : Type} (d : Dispatch) (hooks : Hooks σ) (s : σ) (senderCert : Cert)
    (nowMs : UInt64) : GrantContext where
  ownPubkey := d.ownPubkey
  approverCert := senderCert
  subjectCert := senderCert
  intentTable := d.intentTable
  senderTable := d.senderTable
  nowMs := nowMs
  firstReceiptMs := nowMs
  tMaxS := tMaxSDefault
  tRecvS := tRecvSDefault
  alreadyConsumed := hooks.alreadyConsumed s
  isRevoked := hooks.isRevoked s

def EffectOutcome.outcome : EffectOutcome → Outcome
  | .Fired => .GrantExecuted
  | .Refused => .EffectRefused

def Dispatch.dispatchGrant {σ : Type} (K : Crypto) (d : Dispatch) (env : Envelope) (hooks : Hooks σ)
    (nowMs : UInt64) (s : σ) : Except (Abort DispatchError) Outcome × σ :=
  match parseGrant env.body with
  | .error _ => (.error (.err .BadBody),s)
  | .ok grant =>
    match hooks.certForSender env.sender with
    | none => (.error (.err .UnknownSender),s)
    | some senderCert =>
      match verifyGrantThen K env grant (d.grantContext hooks s senderCert nowMs) hooks.executeEffect s with
      | (.error .panic,s') => (.error .panic,s')
      | (.error (.err e),s') => (.error (.err (.Verify e)),s')
      | (.ok outcome,s') => (.ok outcome.outcome,s')

def Dispatch.dispatchRefusal {σ : Type} (K : Crypto) (d : Dispatch) (env : Envelope) (hooks : Hooks σ)
    (s : σ) : Dispatched σ :=
  match parseRefusal env.body with
  | .error _ => (.error (.err .BadBody),d,s)
  | .ok refusal =>
    match hooks.certForSender env.sender with
    | none => (.error (.err .UnknownSender),d,s)
    | some approverCert =>
      match verifyRefusalThen K env refusal approverCert d.intentTable hooks.onRejected s with
      | (.error e,intentTable,s') => (.error (.err (.Verify e)),{ d with intentTable },s')
      | (.ok _,intentTable,s') => (.ok .RefusalApplied,{ d with intentTable },s')

def Dispatch.dispatch {σ : Type} (K : Crypto) (d : Dispatch) (envBytes : Bytes) (hooks : Hooks σ)
    (nowMs : UInt64) (s : σ) : Dispatched σ :=
  match parseEnvelope envBytes with
  | .error _ => (.error (.err .BadEnvelope),d,s)
  | .ok env =>
    match verifyEnvelope K env with
    | some e => (.error (.err (.Verify e)),d,s)
    | none =>
      if env.bodyType=bodyIntent then
        match d.dispatchIntent env nowMs with
        | (res,d') => (res,d',s)
      else if env.bodyType=bodyGrant then
        match d.dispatchGrant K env hooks nowMs s with
        | (res,s') => (res,d,s')
      else if env.bodyType=bodyRefusal then d.dispatchRefusal K env hooks s
      else if env.bodyType=bodyUtterance then (.ok .Utterance,d,s)
      else if env.bodyType=bodyEffect then (.ok .Effect,d,s)
      else if env.bodyType=bodyControl then (.ok .Control,d,s)
      else (.error (.err .UnsupportedBody),d,s)

/-- What a dispatch never changes: only the two tables move. -/
def Dispatch.SameNode (d d' : Dispatch) : Prop := d'.resolver=d.resolver ∧ d'.ownPubkey=d.ownPubkey

theorem dispatchIntent_same (d : Dispatch) (env : Envelope) (nowMs : UInt64) :
    d.SameNode (d.dispatchIntent env nowMs).2 := by
  rw [Dispatch.dispatchIntent]
  cases parseIntent env.body with
  | error e => exact ⟨rfl,rfl⟩
  | ok intent =>
    simp only
    split
    · exact ⟨rfl,rfl⟩
    · cases d.resolver.resolveAndAdmit d.intentTable (fixed 16 intent.intentId) intent.resourceId nowMs with
      | mk res t =>
        cases res with
        | error e => exact ⟨rfl,rfl⟩
        | ok _ =>
          simp only
          split <;> exact ⟨rfl,rfl⟩

theorem dispatchRefusal_same {σ : Type} (K : Crypto) (d : Dispatch) (env : Envelope) (hooks : Hooks σ)
    (s : σ) : d.SameNode (d.dispatchRefusal K env hooks s).2.1 := by
  rw [Dispatch.dispatchRefusal]
  cases parseRefusal env.body with
  | error e => exact ⟨rfl,rfl⟩
  | ok refusal =>
    cases hooks.certForSender env.sender with
    | none => exact ⟨rfl,rfl⟩
    | some cert =>
      simp only
      cases verifyRefusalThen K env refusal cert d.intentTable hooks.onRejected s with
      | mk res ts =>
        cases res with
        | error e => exact ⟨rfl,rfl⟩
        | ok _ => exact ⟨rfl,rfl⟩

theorem dispatch_same {σ : Type} (K : Crypto) (d : Dispatch) (envBytes : Bytes) (hooks : Hooks σ)
    (nowMs : UInt64) (s : σ) : d.SameNode (d.dispatch K envBytes hooks nowMs s).2.1 := by
  rw [Dispatch.dispatch]
  cases parseEnvelope envBytes with
  | error e => exact ⟨rfl,rfl⟩
  | ok env =>
    cases hv : verifyEnvelope K env with
    | some e =>
      simp only [hv]
      exact ⟨rfl,rfl⟩
    | none =>
      simp only [hv]
      split_ifs
      · exact dispatchIntent_same d env nowMs
      · exact ⟨rfl,rfl⟩
      · exact dispatchRefusal_same K d env hooks s
      all_goals exact ⟨rfl,rfl⟩

section Executes

variable {σ : Type} (K : Crypto) (d : Dispatch) (envBytes : Bytes) (hooks : Hooks σ) (nowMs : UInt64) (s : σ)

/-- The message carries this grant, and the grant passes every check. -/
structure Executes (grant : Grant) : Prop where
  passes : ∃env cert,parseEnvelope envBytes=.ok env ∧ verifyEnvelope K env=none ∧
    parseGrant env.body=.ok grant ∧ hooks.certForSender env.sender=some cert ∧
    Authorised K env grant (d.grantContext hooks s cert nowMs) ∧
    ¬ExpiryOverflows grant (d.grantContext hooks s cert nowMs)

/-- The callbacks with a note of the grants that were executed. -/
def Hooks.recording : Hooks (σ × List Grant) where
  executeEffect := Transport.recording hooks.executeEffect
  certForSender := hooks.certForSender
  onRejected id s := (hooks.onRejected id s.1,s.2)
  isRevoked s := hooks.isRevoked s.1
  alreadyConsumed s := hooks.alreadyConsumed s.1

/-- The grants one dispatch runs the effect callback on. -/
def Dispatch.executed : List Grant := (d.dispatch K envBytes hooks.recording nowMs (s,[])).2.2.2

variable {K d envBytes hooks nowMs s} {grant : Grant}

theorem dispatchGrant_of_authorised (env : Envelope) (cert : Cert)
    (hg : parseGrant env.body=.ok grant) (hc : hooks.certForSender env.sender=some cert)
    (ha : Authorised K env grant (d.grantContext hooks s cert nowMs))
    (ho : ¬ExpiryOverflows grant (d.grantContext hooks s cert nowMs)) :
    d.dispatchGrant K env hooks nowMs s=
      (.ok (hooks.executeEffect grant s).1.outcome,(hooks.executeEffect grant s).2) := by
  have hp : ¬Panics K env grant (d.grantContext hooks s cert nowMs) := fun h => ho h.2
  have he := (authorised_iff_codeError _ _ _ _).mp ha
  rw [Dispatch.dispatchGrant,hg]
  simp only [hc]
  rw [verifyGrantThen_eq _ _ _ _ _ _ hp,he]

/-- A grant that passes every check is executed, once. -/
theorem dispatch_of_executes (h : Executes K d envBytes hooks nowMs s grant) :
    d.dispatch K envBytes hooks nowMs s=
      (.ok (hooks.executeEffect grant s).1.outcome,d,(hooks.executeEffect grant s).2) := by
  obtain ⟨env,cert,hp,hv,hg,hc,ha,ho⟩ := h.passes
  have hi : ¬bodyGrant=bodyIntent := by decide
  rw [Dispatch.dispatch,hp]
  simp only [hv,ha.bodyType,if_neg hi,if_true]
  rw [dispatchGrant_of_authorised env cert hg hc ha ho]

/-- A grant dispatch that executes nothing leaves the callbacks' state alone. -/
theorem dispatchGrant_of_not_executes (env : Envelope) (hp : parseEnvelope envBytes=.ok env)
    (hv : verifyEnvelope K env=none) (h : ∀grant,¬Executes K d envBytes hooks nowMs s grant) :
    ∃a,d.dispatchGrant K env hooks nowMs s=(.error a,s) := by
  rw [Dispatch.dispatchGrant]
  cases hg : parseGrant env.body with
  | error e => exact ⟨_,rfl⟩
  | ok grant =>
    cases hc : hooks.certForSender env.sender with
    | none => exact ⟨_,rfl⟩
    | some cert =>
      simp only
      by_cases hpn : Panics K env grant (d.grantContext hooks s cert nowMs)
      · rw [verifyGrantThen_panic _ _ _ _ _ _ hpn]
        exact ⟨_,rfl⟩
      · rw [verifyGrantThen_eq _ _ _ _ _ _ hpn]
        cases he : codeError K env grant (d.grantContext hooks s cert nowMs) with
        | some e => exact ⟨_,rfl⟩
        | none =>
          have ha := (authorised_iff_codeError _ _ _ _).mpr he
          have ho : ¬ExpiryOverflows grant (d.grantContext hooks s cert nowMs) :=
            fun ho => hpn ⟨ha.toMatched,ho⟩
          exact absurd ⟨env,cert,hp,hv,hg,hc,ha,ho⟩ (h grant)

/-- A dispatch that executed no grant: no outcome of an execution, and the state of
the callbacks as it was or as `on_rejected` left it. -/
structure Quiet (hooks : Hooks σ) (s : σ) (r : Dispatched σ) : Prop where
  outcome : ∀o,r.1=.ok o → o≠.GrantExecuted ∧ o≠.EffectRefused
  state : r.2.2=s ∨ ∃id,r.2.2=hooks.onRejected id s

theorem quiet_error (a : Abort DispatchError) (d' : Dispatch) : Quiet hooks s (.error a,d',s) :=
  ⟨fun _ h => (nomatch h),Or.inl rfl⟩

theorem quiet_ok (o : Outcome) (d' : Dispatch) (hg : o≠.GrantExecuted) (he : o≠.EffectRefused) :
    Quiet hooks s (.ok o,d',s) := by
  refine ⟨?_,Or.inl rfl⟩
  intro o' h
  cases h
  exact ⟨hg,he⟩

theorem verifyRefusalThen_state (K : Crypto) (hooks : Hooks σ) (s : σ) (env : Envelope) (refusal : Refusal)
    (cert : Cert) (t : Table) :
    (verifyRefusalThen K env refusal cert t hooks.onRejected s).2.2=s ∨
      ∃id,(verifyRefusalThen K env refusal cert t hooks.onRejected s).2.2=hooks.onRejected id s := by
  rw [verifyRefusalThen]
  cases verifySignedErr K domainRefusal refusal.tbs refusal.sig env.sender with
  | some e =>
    left
    split_ifs <;> rfl
  | none =>
    simp only
    cases t.applyRefusal (fixed 16 refusal.intentId) with
    | mk outcome t' =>
      split_ifs
      all_goals try exact Or.inl rfl
      cases outcome with
      | Rejected => exact Or.inr ⟨_,rfl⟩
      | NoMatch => exact Or.inl rfl

theorem dispatchRefusal_quiet (env : Envelope) : Quiet hooks s (d.dispatchRefusal K env hooks s) := by
  rw [Dispatch.dispatchRefusal]
  cases parseRefusal env.body with
  | error e => exact quiet_error _ _
  | ok refusal =>
    cases hooks.certForSender env.sender with
    | none => exact quiet_error _ _
    | some cert =>
      simp only
      have hs := verifyRefusalThen_state K hooks s env refusal cert d.intentTable
      cases hv : verifyRefusalThen K env refusal cert d.intentTable hooks.onRejected s with
      | mk res ts =>
        rw [hv] at hs
        cases res with
        | error e => exact ⟨fun _ h => (nomatch h),hs⟩
        | ok _ =>
          refine ⟨?_,hs⟩
          intro o ho
          cases ho
          exact ⟨by simp,by simp⟩

theorem dispatchIntent_outcome (env : Envelope) (o : Outcome) (h : (d.dispatchIntent env nowMs).1=.ok o) :
    o=.IntentAdmitted := by
  rw [Dispatch.dispatchIntent] at h
  cases hp : parseIntent env.body with
  | error e => simp [hp] at h
  | ok intent =>
    rw [hp] at h
    simp only at h
    by_cases hl : intent.intentId.length≠lenIntentId
    · rw [if_pos hl] at h
      cases h
    rw [if_neg hl] at h
    cases hr : d.resolver.resolveAndAdmit d.intentTable (fixed 16 intent.intentId) intent.resourceId nowMs with
    | mk res t =>
      cases res with
      | error e =>
        rw [hr] at h
        cases h
      | ok _ =>
        rw [hr] at h
        by_cases ha : Dispatch.maxAction < intent.action.length
        · simp only [dif_pos ha] at h
          cases h
        · simp only [dif_neg ha] at h
          cases h
          rfl

/-- Every other message leaves the effects alone. -/
theorem dispatch_of_not_executes (h : ∀grant,¬Executes K d envBytes hooks nowMs s grant) :
    Quiet hooks s (d.dispatch K envBytes hooks nowMs s) := by
  rw [Dispatch.dispatch]
  cases hp : parseEnvelope envBytes with
  | error e => exact quiet_error _ _
  | ok env =>
    cases hv : verifyEnvelope K env with
    | some e =>
      simp only [hv]
      exact quiet_error _ _
    | none =>
      simp only [hv]
      split_ifs
      · refine ⟨?_,Or.inl rfl⟩
        intro o ho
        rw [dispatchIntent_outcome env o ho]
        exact ⟨by simp,by simp⟩
      · obtain ⟨a,ha⟩ := dispatchGrant_of_not_executes env hp hv h
        rw [ha]
        exact quiet_error _ _
      · exact dispatchRefusal_quiet env
      · exact quiet_ok _ _ (by simp) (by simp)
      · exact quiet_ok _ _ (by simp) (by simp)
      · exact quiet_ok _ _ (by simp) (by simp)
      · exact quiet_error _ _

/-- The notes change nothing that a check reads. -/
theorem executes_recording (log : List Grant) :
    Executes K d envBytes hooks.recording nowMs (s,log) grant ↔ Executes K d envBytes hooks nowMs s grant :=
  Iff.rfl.trans ⟨fun h => ⟨h.passes⟩,fun h => ⟨h.passes⟩⟩

theorem executed_of_executes (h : Executes K d envBytes hooks nowMs s grant) :
    d.executed K envBytes hooks nowMs s=[grant] := by
  rw [Dispatch.executed,dispatch_of_executes ((executes_recording []).mpr h)]
  rfl

theorem executed_of_not_executes (h : ∀grant,¬Executes K d envBytes hooks nowMs s grant) :
    d.executed K envBytes hooks nowMs s=[] := by
  have hn : ∀grant,¬Executes K d envBytes hooks.recording nowMs (s,[]) grant :=
    fun grant hx => h grant ((executes_recording []).mp hx)
  obtain hs|⟨id,hs⟩ := (dispatch_of_not_executes hn).state
  · rw [Dispatch.executed,hs]
  · rw [Dispatch.executed,hs]
    rfl

/-- The callback is run on exactly the grants that pass. -/
theorem mem_executed_iff : grant∈d.executed K envBytes hooks nowMs s ↔
    Executes K d envBytes hooks nowMs s grant := by
  constructor
  · intro hm
    by_contra hn
    by_cases hx : ∃g,Executes K d envBytes hooks nowMs s g
    · obtain ⟨g,hx⟩ := hx
      rw [executed_of_executes hx,List.mem_singleton] at hm
      exact hn (hm ▸ hx)
    · rw [executed_of_not_executes (fun g hg => hx ⟨g,hg⟩)] at hm
      cases hm
  · intro hx
    rw [executed_of_executes hx]
    exact List.mem_singleton_self grant

end Executes

end Bolina.Transport
