import Bolina.Transport.DispatchStep

namespace Bolina.Transport

open Codec Intent BigEndian

section Revoked

variable {σ : Type} (K : Crypto) (d : Dispatch) (envBytes : Bytes) (hooks : Hooks σ) (nowMs : UInt64) (s : σ)

/-- A grant or a refusal from a revoked key changes nothing and calls nobody. -/
def Powerless : Prop :=
  ∀env,parseEnvelope envBytes=.ok env → hooks.isRevoked s env.sender=true →
    env.bodyType=bodyGrant ∨ env.bodyType=bodyRefusal → Untouched K d envBytes hooks nowMs s

/-- The message is a verified refusal, by a revoked key, of an intent that is pending. -/
def RevokedRefusal : Prop :=
  ∃env refusal cert,Refuses K envBytes hooks env refusal cert ∧ hooks.isRevoked s env.sender=true ∧
    d.intentTable.pendingEntry (fixed 16 refusal.intentId)≠none

variable {K d envBytes hooks nowMs s}

theorem withdrawn_of_none (intentId : FixedBytes 16) (h : d.intentTable.pendingEntry intentId=none) :
    d.withdrawn intentId=d := by
  rw [Dispatch.withdrawn,Table.applyRefusal,matchForGrant_of_none d.intentTable intentId h]

/-- Checks 1, 3 and the revocation check rule an execution out. -/
theorem not_executes_of_revoked {env : Envelope} (hp : parseEnvelope envBytes=.ok env)
    (hrev : hooks.isRevoked s env.sender=true) (grant : Grant) :
    ¬Executes K d envBytes hooks nowMs s grant := by
  intro h
  obtain ⟨env',cert,hp',_,_,_,ha,_⟩ := h.passes
  rw [hp] at hp'
  cases hp'
  have hlive : hooks.isRevoked s cert.sigPubkey=false := ha.approverLive
  have hkey : cert.sigPubkey=grant.approver := ha.approverKey
  rw [hkey,← ha.sender,hrev] at hlive
  cases hlive

theorem not_powerless_of_refusal (h : RevokedRefusal K d envBytes hooks s) :
    ¬Powerless K d envBytes hooks nowMs s := by
  obtain ⟨env,refusal,cert,hr,hrev,hpend⟩ := h
  intro hp
  have hcalls := (hp env hr.signed.parses hrev (Or.inr hr.body)).calls
  rw [traced_of_refuses hr,if_neg hpend] at hcalls
  cases hcalls

/-- A revoked approver is powerless exactly as long as it does not refuse a pending intent. -/
theorem powerless_iff (K : Crypto) (d : Dispatch) (envBytes : Bytes) (hooks : Hooks σ) (nowMs : UInt64)
    (s : σ) : Powerless K d envBytes hooks nowMs s ↔ ¬RevokedRefusal K d envBytes hooks s := by
  constructor
  · exact fun hp h => not_powerless_of_refusal h hp
  · intro h env hp hrev hbody
    cases happens K d envBytes hooks nowMs s with
    | proposes env' i canonical hi =>
      have hpe := hi.signed.parses
      rw [hp] at hpe
      cases hpe
      rw [hi.body] at hbody
      obtain hb|hb := hbody <;> cases hb
    | executes grant hx => exact absurd hx (not_executes_of_revoked hp hrev grant)
    | refuses env' refusal cert hr =>
      have hpe := hr.signed.parses
      rw [hp] at hpe
      cases hpe
      have hnone : d.intentTable.pendingEntry (fixed 16 refusal.intentId)=none := by
        by_contra hne
        exact h ⟨env,refusal,cert,hr,hrev,hne⟩
      have hd := @traced_of_refuses σ K d envBytes hooks nowMs s env refusal cert hr
      rw [if_pos hnone,withdrawn_of_none _ hnone] at hd
      exact untouched_of_eq hd
    | idle hprop hexec hr =>
      obtain ⟨res,hd,_⟩ := traced_of_idle hprop hexec hr
      exact untouched_of_eq hd

end Revoked

def unsignedRefusal : Refusal where
  intentId := sampleIntent.intentId
  note := []
  tbs := []
  sig := []

/-- The peer's refusal of the sample intent. -/
def sampleRefusal : Refusal :=
  { unsignedRefusal with
    tbs := encodeRefusal unsignedRefusal
    sig := beBytes 32 0x4d805c4e0764cd7fdf823442233ee989926bf0f27b35646396a1eeec7f2616da++
      beBytes 32 0x19f9746232760d31c61ab0e3991691b749ce6385e9a6076118de336719854a0e }

def refusalEnvelope : Envelope :=
  let e := unsignedEnvelope 3 bodyRefusal (encodeRefusal sampleRefusal)
  { e with
    tbs := encodeEnvelope e
    sig := beBytes 32 0xf3a29908a08d6b5eb80bf059f50bf50a7e487676a8e540dfbbaad4d9aa14162c++
      beBytes 32 0x8298938b85f91636bdafb3270f101afd965600734446f3d3e416f292e3be2104 }

def refusalCrypto : Crypto :=
  signing sampleCrypto [(peerKey,domainRefusal::sampleRefusal.tbs,sampleRefusal.sig),
    (peerKey,domainEnvelope::refusalEnvelope.tbs,refusalEnvelope.sig)]

/-- A revoked key withdraws a pending intent. -/
theorem revoked_refusal_applies :
    ¬Powerless refusalCrypto pendingDispatch (encodeEnvelope refusalEnvelope)
      { sampleHooks with isRevoked := fun _ _ => true } 1000000 () := by
  intro h
  have hp : parseEnvelope (encodeEnvelope refusalEnvelope)=.ok refusalEnvelope := by decide +kernel
  have hcalls := (h refusalEnvelope hp rfl (Or.inr rfl)).calls
  revert hcalls
  decide +kernel

end Bolina.Transport
