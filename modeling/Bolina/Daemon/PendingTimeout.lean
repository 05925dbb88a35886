import Bolina.Daemon.Process
import Bolina.Framework.GuardedRun

namespace Bolina

open Codec Intent State Transport Control GuardedRun

/-- The error of the intent table in a dispatch result. -/
def tableError : Except (Abort DispatchError) Outcome → Option IntentError
  | .error (.err (.Resolve (.Intent e))) => some e
  | _ => none

/-- The error of the intent table with which a step turns its intent away. -/
def Process.refusal (K : Crypto) (p : Process) : ProcessStep → Option IntentError
  | .envelope io plain now =>
    tableError (p.daemon.dispatcher.dispatch K plain (ledgerHooks io now p.daemon.certForSender) now
      ⟨p.daemon.ledger,p.disk⟩).1
  | .post body now =>
    match (postIntent body p.daemon.resolver p.daemon.intents p.metrics p.daemon.ring now).1 with
    | .error (.Intent e) => some e
    | _ => none
  | _ => none

/-- The process without the intents that have timed out. -/
def Process.swept (p : Process) (now : UInt64) : Process :=
  { p with daemon := { p.daemon with intents := p.daemon.intents.expired now } }

/-- No grant is executed for an intent that has timed out, and no intent is turned away
on account of one. -/
structure Honours (K : Crypto) (p : Process) (x : ProcessStep) : Prop where
  grants : ∀g∈p.executed K x,∀e,p.daemon.intents.pendingEntry (fixed 16 g.intentId)=some e →
    e.timedOut x.now=false
  refusals : ∀e,e=.ResourceHeld ∨ e=.TableFull → p.refusal K x=some e →
    (p.swept x.now).refusal K x=some e

/-- The intent id and the resource that a step asks for. -/
def request (K : Crypto) : ProcessStep → Option (FixedBytes 16 × Bytes)
  | .envelope _ plain _ => (signedIntent K plain).map (fun ei => (fixed 16 ei.2.intentId,ei.2.resourceId))
  | .post body _ => (readPosted body).map (fun i => (i.intentId,i.resource))
  | _ => none

/-- An intent comes for a declared resource that timed-out entries alone hold, or for a
free one while the table is full and has timed-out entries. -/
def Stalled (K : Crypto) (p : Process) (x : ProcessStep) : Prop :=
  ∃intentId resourceId canonical,request K x=some (intentId,resourceId) ∧
    p.daemon.resolver.resolve resourceId=.ok canonical ∧ canonical.length ≤ maxResource ∧
    p.daemon.intents.Stale intentId canonical x.now

section Requests

variable {K : Crypto} {caPubs : List Bytes} {p : Process}

theorem tableError_dispatchIntent (d : Dispatch) (env : Envelope) (i : Codec.Intent) (nowMs : UInt64)
    (hp : parseIntent env.body=.ok i) (hw : i.intentId.length=lenIntentId) (e : IntentError) :
    tableError (d.dispatchIntent env nowMs).1=some e ↔
      (d.resolver.resolveAndAdmit d.intentTable (fixed 16 i.intentId) i.resourceId nowMs).1=.error (.Intent e) := by
  rw [Dispatch.dispatchIntent,hp]
  simp only [if_neg (not_not.mpr hw)]
  cases hr : d.resolver.resolveAndAdmit d.intentTable (fixed 16 i.intentId) i.resourceId nowMs with
  | mk res t =>
    cases res with
    | ok _ =>
      simp only
      split <;> simp [tableError]
    | error e' => cases e' <;> simp [tableError]

/-- Only intents end in an error of the intent table. -/
theorem tableError_of_body {σ : Type} (d : Dispatch) (envBytes : Bytes) (env : Envelope) (hooks : Hooks σ)
    (nowMs : UInt64) (s : σ) (hs : Signed K envBytes env) (hb : env.bodyType≠bodyIntent) :
    tableError (d.dispatch K envBytes hooks nowMs s).1=none := by
  rw [dispatch_signed hs,if_neg hb]
  split_ifs
  · rw [Dispatch.dispatchGrant]
    cases parseGrant env.body with
    | error e => rfl
    | ok grant =>
      cases hooks.certForSender env.sender with
      | none => rfl
      | some cert =>
        simp only
        cases verifyGrantThen K env grant (d.grantContext hooks s cert nowMs) hooks.executeEffect s with
        | mk res s' =>
          cases res with
          | ok o => rfl
          | error a => cases a <;> rfl
  · rw [Dispatch.dispatchRefusal]
    cases parseRefusal env.body with
    | error e => rfl
    | ok refusal =>
      cases hooks.certForSender env.sender with
      | none => rfl
      | some cert =>
        simp only
        cases verifyRefusalThen K env refusal cert d.intentTable hooks.onRejected s with
        | mk res ts => cases res <;> rfl
  all_goals rfl

theorem refusal_envelope_iff (io : Io) (plain : Bytes) (now : UInt64) (e : IntentError) :
    p.refusal K (.envelope io plain now)=some e ↔
      ∃q,request K (.envelope io plain now)=some q ∧
        (p.daemon.resolver.resolveAndAdmit p.daemon.intents q.1 q.2 now).1=.error (.Intent e) := by
  rw [Process.refusal,request]
  constructor
  · intro h
    by_cases hs : ∃env,Signed K plain env
    · obtain ⟨env,hs⟩ := hs
      by_cases hb : env.bodyType=bodyIntent
      · rw [dispatch_signed hs,if_pos hb] at h
        cases hp : parseIntent env.body with
        | error e' =>
          rw [Dispatch.dispatchIntent,hp] at h
          cases h
        | ok i =>
          by_cases hw : i.intentId.length=lenIntentId
          · rw [(signedIntent_iff K plain env i).mpr ⟨hs,hb,hp,hw⟩]
            exact ⟨_,rfl,(tableError_dispatchIntent p.daemon.dispatcher env i now hp hw e).mp h⟩
          · simp only [Dispatch.dispatchIntent,hp,if_pos hw] at h
            cases h
      · rw [tableError_of_body _ _ env _ _ _ hs hb] at h
        cases h
    · obtain ⟨e',hk,he⟩ := @dispatch_of_not_signed _ K plain (ledgerHooks io now p.daemon.certForSender) now
        ⟨p.daemon.ledger,p.disk⟩ (fun env h => hs ⟨env,h⟩)
      rw [he] at h
      obtain rfl|⟨v,rfl⟩ := hk
      · cases h
      · cases h
  · intro h
    obtain ⟨q,hq,hr⟩ := h
    rw [Option.map_eq_some_iff] at hq
    obtain ⟨ei,hei,rfl⟩ := hq
    obtain ⟨hs,hb,hp,hw⟩ := (signedIntent_iff K plain ei.1 ei.2).mp hei
    rw [dispatch_signed hs,if_pos hb]
    exact (tableError_dispatchIntent p.daemon.dispatcher ei.1 ei.2 now hp hw e).mpr hr

/-- A post that is turned away for want of room or for the resource. -/
theorem refusal_post_iff (body : List Char) (now : UInt64) (e : IntentError) (he : e≠.DuplicateIntentId) :
    p.refusal K (.post body now)=some e ↔
      ∃q,request K (.post body now)=some q ∧
        (p.daemon.resolver.resolveAndAdmit p.daemon.intents q.1 q.2 now).1=.error (.Intent e) := by
  rw [Process.refusal,request,postIntent]
  cases readPosted body with
  | none => simp
  | some i =>
    simp only [Option.map_some,Option.some.injEq,exists_eq_left']
    cases hr : p.daemon.resolver.resolveAndAdmit p.daemon.intents i.intentId i.resource now with
    | mk res t =>
      cases res with
      | ok _ => simp
      | error r =>
        simp only
        by_cases hd : r=.Intent .DuplicateIntentId
        · rw [if_pos hd,hd]
          simp [he.symm]
        · rw [if_neg hd]
          cases r <;> simp [ApiError.ofResolve]

/-- A step turns its intent away with an error other than a duplicate exactly when the
intent table does. -/
theorem refusal_iff (x : ProcessStep) (e : IntentError) (he : e=.ResourceHeld ∨ e=.TableFull) :
    p.refusal K x=some e ↔
      ∃intentId resourceId canonical,request K x=some (intentId,resourceId) ∧
        p.daemon.resolver.resolve resourceId=.ok canonical ∧ canonical.length ≤ maxResource ∧
        p.daemon.intents.admitError intentId canonical=some e := by
  have hne : e≠.DuplicateIntentId := by
    obtain rfl|rfl := he
    · simp
    · simp
  have hall : (p.refusal K x=some e ↔ ∃q,request K x=some q ∧
      (p.daemon.resolver.resolveAndAdmit p.daemon.intents q.1 q.2 x.now).1=.error (.Intent e)) := by
    cases x with
    | binding plain handshakeHash peerStatic now => simp [Process.refusal,request]
    | envelope io plain now => exact refusal_envelope_iff io plain now e
    | post body now => exact refusal_post_iff body now e hne
    | tick now => simp [Process.refusal,request]
  rw [hall]
  constructor
  · intro h
    obtain ⟨q,hq,hr⟩ := h
    obtain ⟨canonical,hc,hle,ha⟩ := (resolveAndAdmit_intent_iff _ _ _ _ _ _).mp hr
    exact ⟨q.1,q.2,canonical,hq,hc,hle,ha⟩
  · intro h
    obtain ⟨intentId,resourceId,canonical,hq,hc,hle,ha⟩ := h
    exact ⟨(intentId,resourceId),hq,(resolveAndAdmit_intent_iff _ _ _ _ _ _).mpr ⟨canonical,hc,hle,ha⟩⟩

/-- In a sound state a step honours the timeout exactly when it is not stalled. -/
theorem honours_iff (hs : p.Sound K caPubs) (x : ProcessStep) : Honours K p x ↔ ¬Stalled K p x := by
  constructor
  · intro h hst
    obtain ⟨intentId,resourceId,canonical,hq,hc,hle,hstale⟩ := hst
    obtain ⟨e,he,ha⟩ := admitError_of_stale hstale
    have hr := h.refusals e he ((refusal_iff x e he).mpr ⟨intentId,resourceId,canonical,hq,hc,hle,ha⟩)
    obtain ⟨intentId',resourceId',canonical',hq',hc',_,ha'⟩ := (refusal_iff x e he).mp hr
    rw [hq] at hq'
    cases hq'
    have hcc : canonical=canonical' := Except.ok.inj (hc.symm.trans hc')
    have hnone := admitError_expired_of_stale hs.fits hstale
    rw [hcc] at hnone
    have hsome : (p.daemon.intents.expired x.now).admitError intentId canonical'=some e := ha'
    rw [hnone] at hsome
    cases hsome
  · intro hst
    constructor
    · intro g hg
      rw [hs.executed x] at hg
      cases hg
    · intro e he hr
      obtain ⟨intentId,resourceId,canonical,hq,hc,hle,ha⟩ := (refusal_iff x e he).mp hr
      have hnot : ¬p.daemon.intents.Stale intentId canonical x.now :=
        fun h => hst ⟨intentId,resourceId,canonical,hq,hc,hle,h⟩
      exact (refusal_iff x e he).mpr
        ⟨intentId,resourceId,canonical,hq,hc,hle,admitError_expired_of_not_stale hnot e he ha⟩

end Requests

/-- A property of the steps of a process that runs. -/
def OfRunning (P : Process → ProcessStep → Prop) (o : Option Process) (x : ProcessStep) : Prop :=
  ∀p,o=some p → P p x

/-- Along a run of the daemon the pending timeout is honoured exactly as long as no
intent comes for what only timed-out entries keep from it. -/
theorem timeout_honoured_iff (K : Crypto) (caPubs : List Bytes) (sigPub : Bytes) (resolver : Resolver)
    (ledger : Option GrantLedger) (disk : Disk) (steps : List ProcessStep) :
    Meets (next K caPubs) (OfRunning (Honours K)) (some (Process.boot K sigPub resolver ledger disk)) steps ↔
      Meets (next K caPubs) (OfRunning (fun p x => ¬Stalled K p x))
        (some (Process.boot K sigPub resolver ledger disk)) steps := by
  refine @meets_congr _ _ (next K caPubs) _ (Running K caPubs) _ running_next ?_ _ steps
    (running_boot sigPub resolver ledger disk)
  intro o x h
  obtain ⟨p,rfl,hs⟩ := h
  constructor
  · intro ho p' hp
    cases hp
    exact (honours_iff hs x).mp (ho p rfl)
  · intro ho p' hp
    cases hp
    exact (honours_iff hs x).mpr (ho p rfl)

/-- A node with one resource, before any message. -/
def bootedProcess : Process := Process.boot sampleCrypto nodeKey sampleDispatch.resolver none ⟨[],none,[]⟩

/-- An intent is refused a resource that an intent of 900001 ms before still holds. -/
theorem timed_out_intent_blocks :
    ¬Meets (next sampleCrypto []) (OfRunning (Honours sampleCrypto)) (some bootedProcess)
      [.post (intentBody '1') 1000000,.post (intentBody '2') 1900001] := by
  intro h
  obtain ⟨p,hp,_⟩ := running_next (some bootedProcess) (.post (intentBody '1') 1000000)
    (@running_boot sampleCrypto [] nodeKey sampleDispatch.resolver none ⟨[],none,[]⟩)
  have hruns : (next sampleCrypto [] (some bootedProcess) (.post (intentBody '1') 1000000)).map (fun p =>
      (p.refusal sampleCrypto (.post (intentBody '2') 1900001),
        (p.swept 1900001).refusal sampleCrypto (.post (intentBody '2') 1900001)))=
      some (some .ResourceHeld,none) := by decide +kernel
  rw [hp] at hruns
  obtain ⟨hheld,hswept⟩ := Prod.mk.inj (Option.some.inj hruns)
  have hs := (h.2.1 p hp).refusals .ResourceHeld (Or.inl rfl) hheld
  have hnow : (ProcessStep.post (intentBody '2') 1900001).now=1900001 := rfl
  rw [hnow,hswept] at hs
  cases hs

end Bolina
