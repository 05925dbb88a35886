import Bolina.Transport.Binding
import Bolina.Transport.DispatchStep

namespace Bolina.Transport

open Codec Intent

/-- The roles that may send a body. Nothing calls it. -/
def bodyTypeAllowed (bodyType roleBits : UInt8) : Bool :=
  let isAgent := decide (roleBits&&&roleAgent≠0)
  let isApprover := decide (roleBits&&&roleApprover≠0)
  let isExecutor := decide (roleBits&&&roleExecutor≠0)
  if bodyType=bodyIntent then isAgent
  else if bodyType=bodyGrant ∨ bodyType=bodyRefusal then isApprover
  else if bodyType=bodyEffect then isExecutor
  else decide (bodyType=bodyControl)

/-- The outcomes that mean a change of state. -/
def Outcome.Changes (o : Outcome) : Prop :=
  o=.IntentAdmitted ∨ o=.GrantExecuted ∨ o=.EffectRefused ∨ o=.RefusalApplied

section RoleGate

variable {σ : Type} (K : Crypto) (d : Dispatch) (envBytes : Bytes) (hooks : Hooks σ) (nowMs : UInt64) (s : σ)

/-- Only a sender with a bound certificate of the right role brings a change about. -/
def RoleGated : Prop :=
  ∀o,(d.dispatch K envBytes hooks nowMs s).1=.ok o → o.Changes →
    ∃env c,parseEnvelope envBytes=.ok env ∧ hooks.certForSender env.sender=some c ∧
      bodyTypeAllowed env.bodyType c.roleBits=true

/-- The message is an intent that is admitted and recorded, and its sender has no
certificate of an agent. -/
def Ungated : Prop :=
  ∃env i canonical,Proposes K d envBytes env i canonical ∧ i.action.length ≤ senderMaxAction ∧
    ∀c,hooks.certForSender env.sender=some c → c.roleBits&&&roleAgent=0

theorem agent_allowed (roleBits : UInt8) : bodyTypeAllowed bodyIntent roleBits=true ↔
    roleBits&&&roleAgent≠0 := by
  simp [bodyTypeAllowed]

theorem approver_allowed (bodyType roleBits : UInt8) (hb : bodyType=bodyGrant ∨ bodyType=bodyRefusal)
    (h : roleBits&&&roleApprover≠0) : bodyTypeAllowed bodyType roleBits=true := by
  have hi : ¬bodyType=bodyIntent := by
    intro he
    rw [he] at hb
    obtain hb|hb := hb <;> cases hb
  rw [bodyTypeAllowed,if_neg hi,if_pos hb]
  exact decide_eq_true h

variable {K d envBytes hooks nowMs s}

theorem not_gated_of_ungated (h : Ungated K d envBytes hooks) : ¬RoleGated K d envBytes hooks nowMs s := by
  obtain ⟨env,i,canonical,hp,hl,hno⟩ := h
  intro hg
  have hd : (d.dispatch K envBytes hooks nowMs s).1=.ok .IntentAdmitted := by
    rw [dispatch_of_proposes hp,dif_pos hl]
  obtain ⟨env',c,hpe,hc,hallowed⟩ := hg .IntentAdmitted hd (Or.inl rfl)
  rw [hp.signed.parses] at hpe
  cases hpe
  rw [hp.body,agent_allowed] at hallowed
  exact hallowed (hno c hc)

theorem gated_of_executes {grant : Grant} (h : Executes K d envBytes hooks nowMs s grant) :
    RoleGated K d envBytes hooks nowMs s := by
  obtain ⟨env,cert,hp,_,_,hc,ha,_⟩ := h.passes
  intro o _ _
  exact ⟨env,cert,hp,hc,approver_allowed env.bodyType cert.roleBits (Or.inl ha.bodyType) ha.approverRole⟩

theorem gated_of_refuses {env : Envelope} {refusal : Refusal} {cert : Cert}
    (h : Refuses K envBytes hooks env refusal cert) : RoleGated K d envBytes hooks nowMs s := by
  intro o _ _
  exact ⟨env,cert,h.signed.parses,h.known,
    approver_allowed env.bodyType cert.roleBits (Or.inr h.body) h.role⟩

/-- The gate holds exactly where no intent comes from a sender without the agent role. -/
theorem role_gated_iff (K : Crypto) (d : Dispatch) (envBytes : Bytes) (hooks : Hooks σ) (nowMs : UInt64)
    (s : σ) : RoleGated K d envBytes hooks nowMs s ↔ ¬Ungated K d envBytes hooks := by
  constructor
  · exact fun hg h => not_gated_of_ungated h hg
  · intro h
    cases happens K d envBytes hooks nowMs s with
    | proposes env i canonical hp =>
      intro o ho hchange
      by_cases hl : i.action.length ≤ senderMaxAction
      · have hc : ∃c,hooks.certForSender env.sender=some c ∧ c.roleBits&&&roleAgent≠0 := by
          by_contra hno
          refine h ⟨env,i,canonical,hp,hl,?_⟩
          intro c hc
          by_contra hr
          exact hno ⟨c,hc,hr⟩
        obtain ⟨c,hc,hr⟩ := hc
        refine ⟨env,c,hp.signed.parses,hc,?_⟩
        rw [hp.body]
        exact (agent_allowed c.roleBits).mpr hr
      · rw [dispatch_of_proposes hp,dif_neg hl] at ho
        cases ho
    | executes grant hx => exact gated_of_executes hx
    | refuses env refusal cert hr => exact gated_of_refuses hr
    | idle hp hx hr =>
      obtain ⟨res,hd,hidle⟩ := dispatch_of_idle hp hx hr
      intro o ho hchange
      rw [hd] at ho
      exfalso
      obtain rfl|rfl|rfl := hidle o ho
      all_goals simp [Outcome.Changes] at hchange

end RoleGate

/-- An intent is admitted although its sender has no certificate at all. -/
theorem unbound_sender_admitted :
    ¬RoleGated sampleCrypto sampleDispatch (encodeEnvelope intentEnvelope)
      { sampleHooks with certForSender := fun _ => none } 1000000 () := by
  intro h
  obtain ⟨_,_,_,hc,_⟩ := h .IntentAdmitted (by decide +kernel) (Or.inl rfl)
  cases hc

end Bolina.Transport
