import Bolina.Framework.GuardedRun
import Bolina.Transport.DispatchStep

namespace Bolina.Transport

open Codec Intent

/-- A message with the time of its dispatch and the answers of the callbacks to it. -/
structure Call where
  envBytes : Bytes
  nowMs : UInt64
  certForSender : Bytes → Option Cert
  isRevoked : Bytes → Bool
  alreadyConsumed : Bytes → UInt64 → UInt64 → Bool
  effect : Grant → EffectOutcome

/-- The callbacks of a call, with a note of the effects. -/
def Call.hooks (c : Call) : Hooks (List (Grant × EffectOutcome)) where
  executeEffect g s := (c.effect g,s++[(g,c.effect g)])
  certForSender := c.certForSender
  onRejected _ s := s
  isRevoked _ := c.isRevoked
  alreadyConsumed _ := c.alreadyConsumed

/-- The owner of the tables hands a message over, or sweeps the intent table. -/
inductive RunStep where
  | dispatch (c : Call)
  | expire (nowMs : UInt64)

inductive RunEvent where
  | admitted (intentId : FixedBytes 16) (sender action : Bytes)
  | received (grant : Grant) (nowMs : UInt64)
  | executed (grant : Grant) (outcome : EffectOutcome)
  deriving DecidableEq

/-- A dispatcher with what has happened to it, the newest event first. -/
structure History where
  dispatch : Dispatch
  log : List RunEvent

def History.start (resolver : Resolver) (ownPubkey : Bytes) : History :=
  ⟨⟨resolver,Table.new,SenderTable.new,ownPubkey⟩,[]⟩

/-- The intent of a message that is admitted to the table. -/
def Dispatch.admission (K : Crypto) (d : Dispatch) (envBytes : Bytes) (nowMs : UInt64) :
    Option (Envelope × Codec.Intent) :=
  match signedIntent K envBytes with
  | none => none
  | some (env,i) =>
    match (d.resolver.resolveAndAdmit d.intentTable (fixed 16 i.intentId) i.resourceId nowMs).1 with
    | .error _ => none
    | .ok _ => some (env,i)

/-- The grant of a message that holds one. -/
def receipt (envBytes : Bytes) : Option Grant :=
  match parseEnvelope envBytes with
  | .error _ => none
  | .ok env => if env.bodyType≠bodyGrant then none else (parseGrant env.body).toOption

def History.step (K : Crypto) (s : History) : RunStep → History
  | .dispatch c =>
    let r := s.dispatch.dispatch K c.envBytes c.hooks c.nowMs []
    let executed := r.2.2.map (fun ge => RunEvent.executed ge.1 ge.2)
    let received := (receipt c.envBytes).toList.map (fun g => RunEvent.received g c.nowMs)
    let admitted := (s.dispatch.admission K c.envBytes c.nowMs).toList.map
      (fun ei => RunEvent.admitted (fixed 16 ei.2.intentId) ei.1.sender ei.2.action)
    ⟨r.2.1,executed++(received++(admitted++s.log))⟩
  | .expire nowMs =>
    match s.dispatch.intentTable.expireTimeouts nowMs with
    | none => s
    | some (_,intentTable) => { s with dispatch := { s.dispatch with intentTable } }

section Admission

variable {K : Crypto} {d : Dispatch} {envBytes : Bytes} {nowMs : UInt64} {env : Envelope} {i : Codec.Intent}

theorem admission_of_proposes {canonical : Bytes} (h : Proposes K d envBytes env i canonical) :
    d.admission K envBytes nowMs=some (env,i) := by
  obtain ⟨hok,_⟩ := resolveAndAdmit_of_admissible nowMs h.admissible
  rw [Dispatch.admission,(signedIntent_iff K envBytes env i).mpr ⟨h.signed,h.body,h.parses,h.width⟩]
  simp only [hok]

theorem proposes_of_admission (h : d.admission K envBytes nowMs=some (env,i)) :
    ∃canonical,Proposes K d envBytes env i canonical := by
  rw [Dispatch.admission] at h
  cases hs : signedIntent K envBytes with
  | none => simp [hs] at h
  | some ei =>
    obtain ⟨env',i'⟩ := ei
    obtain ⟨hsig,hb,hi,hw⟩ := (signedIntent_iff K envBytes env' i').mp hs
    simp only [hs] at h
    by_cases ha : ∃canonical,
        Admissible d.resolver d.intentTable (fixed 16 i'.intentId) i'.resourceId canonical
    · obtain ⟨canonical,ha⟩ := ha
      obtain ⟨hok,_⟩ := resolveAndAdmit_of_admissible nowMs ha
      rw [hok] at h
      cases h
      exact ⟨canonical,hsig,hb,hi,hw,ha⟩
    · obtain ⟨e,he⟩ := resolveAndAdmit_of_not_admissible nowMs (fun c hc => ha ⟨c,hc⟩)
      rw [he] at h
      cases h

theorem admission_eq_none (h : ∀env i canonical,¬Proposes K d envBytes env i canonical) :
    d.admission K envBytes nowMs=none := by
  cases ha : d.admission K envBytes nowMs with
  | none => rfl
  | some ei =>
    obtain ⟨canonical,hp⟩ := proposes_of_admission ha
    exact absurd hp (h _ _ _)

theorem Signed.sender_length (h : Signed K envBytes env) : env.sender.length=32 := by
  have hv := (verifySignedErr_eq_none _ _ _ _ _).mp h.verifies
  rw [verifySigned,Bool.and_eq_true,Bool.and_eq_true] at hv
  exact eq_of_beq hv.1.1

theorem receipt_of_body (hp : parseEnvelope envBytes=.ok env) (hb : env.bodyType≠bodyGrant) :
    receipt envBytes=none := by
  rw [receipt,hp]
  exact if_pos hb

end Admission

section Step

variable {K : Crypto} {s : History} {c : Call} {env : Envelope}

/-- An admission, with or without the sender record. -/
theorem step_of_proposes {i : Codec.Intent} {canonical : Bytes}
    (h : Proposes K s.dispatch c.envBytes env i canonical) :
    s.step K (.dispatch c)=
      ⟨if hl : i.action.length ≤ senderMaxAction then
          (s.dispatch.admitted i c.nowMs).record (senderRecord env i hl)
        else s.dispatch.admitted i c.nowMs,
        .admitted (fixed 16 i.intentId) env.sender i.action::s.log⟩ := by
  rw [History.step,dispatch_of_proposes h,receipt_of_body h.signed.parses (h.not_grant env h.signed),
    admission_of_proposes h]
  by_cases hl : i.action.length ≤ senderMaxAction
  · simp only [dif_pos hl]
    rfl
  · simp only [dif_neg hl]
    rfl

theorem receipt_of_executes {g : Grant} {log : List (Grant × EffectOutcome)}
    (h : Executes K s.dispatch c.envBytes c.hooks c.nowMs log g) : receipt c.envBytes=some g := by
  obtain ⟨env,cert,hp,_,hg,_,ha,_⟩ := h.passes
  rw [receipt,hp]
  simp only [if_neg (not_not.mpr ha.bodyType),hg]
  rfl

theorem not_proposes_of_executes {g : Grant} {log : List (Grant × EffectOutcome)}
    (h : Executes K s.dispatch c.envBytes c.hooks c.nowMs log g) (env : Envelope) (i : Codec.Intent)
    (canonical : Bytes) : ¬Proposes K s.dispatch c.envBytes env i canonical := by
  intro hp
  obtain ⟨env',cert,hpe,_,_,_,ha,_⟩ := h.passes
  have hpe' := hp.signed.parses
  rw [hpe] at hpe'
  cases hpe'
  have hb : bodyGrant=bodyIntent := ha.bodyType.symm.trans hp.body
  cases hb

/-- An execution leaves the tables. -/
theorem step_of_executes {g : Grant} (h : Executes K s.dispatch c.envBytes c.hooks c.nowMs [] g) :
    s.step K (.dispatch c)=⟨s.dispatch,.executed g (c.effect g)::.received g c.nowMs::s.log⟩ := by
  rw [History.step,dispatch_of_executes h,receipt_of_executes h,
    admission_eq_none (not_proposes_of_executes h)]
  rfl

theorem not_proposes_of_refuses {refusal : Refusal} {cert : Cert}
    (h : Refuses K c.envBytes c.hooks env refusal cert) (env' : Envelope) (i : Codec.Intent)
    (canonical : Bytes) : ¬Proposes K s.dispatch c.envBytes env' i canonical := by
  intro hp
  have he := hp.signed.unique h.signed
  have hb := hp.body
  rw [he,h.body] at hb
  cases hb

theorem step_of_refuses {refusal : Refusal} {cert : Cert} (h : Refuses K c.envBytes c.hooks env refusal cert) :
    s.step K (.dispatch c)=⟨s.dispatch.withdrawn (fixed 16 refusal.intentId),s.log⟩ := by
  rw [History.step,dispatch_of_refuses h,receipt_of_body h.signed.parses (h.not_grant env h.signed),
    admission_eq_none (not_proposes_of_refuses h)]
  simp only [Call.hooks,ite_self]
  rfl

theorem step_of_idle (hp : ∀env i canonical,¬Proposes K s.dispatch c.envBytes env i canonical)
    (hx : ∀g,¬Executes K s.dispatch c.envBytes c.hooks c.nowMs [] g)
    (hr : ∀env refusal cert,¬Refuses K c.envBytes c.hooks env refusal cert) :
    s.step K (.dispatch c)=
      ⟨s.dispatch,(receipt c.envBytes).toList.map (fun g => RunEvent.received g c.nowMs)++s.log⟩ := by
  obtain ⟨res,hd,_⟩ := dispatch_of_idle hp hx hr
  rw [History.step,hd,admission_eq_none hp]
  rfl

end Step

/-- A message to a caller that knows the peer and lets every effect fire. -/
def sampleCall (envBytes : Bytes) (nowMs : UInt64) : Call where
  envBytes
  nowMs
  certForSender := sampleHooks.certForSender
  isRevoked _ := false
  alreadyConsumed _ _ _ := false
  effect _ := .Fired

def sampleHistory : History := History.start sampleDispatch.resolver nodeKey

end Bolina.Transport
