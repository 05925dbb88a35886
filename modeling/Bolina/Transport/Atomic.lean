import Bolina.Transport.DispatchStep

namespace Bolina.Transport

open Codec Intent BigEndian

section Atomic

variable {σ : Type} (K : Crypto) (d : Dispatch) (envBytes : Bytes) (hooks : Hooks σ) (nowMs : UInt64) (s : σ)

/-- A dispatch that returns an error has changed nothing and called nobody. -/
def AtomicOnError : Prop :=
  ∀e,(d.traced K envBytes hooks nowMs s).1=.error (.err e) → Untouched K d envBytes hooks nowMs s

/-- The message is a signed intent that the resolver and the table accept, with an
action longer than a sender record holds. -/
def Oversized : Prop :=
  ∃env i canonical,Proposes K d envBytes env i canonical ∧ senderMaxAction < i.action.length

variable {K d envBytes hooks nowMs s}

/-- The refused intent is in the table. -/
theorem admitted_intents_ne {env : Envelope} {i : Codec.Intent} {canonical : Bytes}
    (h : Proposes K d envBytes env i canonical) : (d.admitted i nowMs).intentTable≠d.intentTable := by
  intro he
  obtain ⟨_,hentries⟩ := resolveAndAdmit_of_admissible nowMs h.admissible
  have hlen : (d.admitted i nowMs).intentTable.entries.length=d.intentTable.entries.length+1 := by
    rw [Dispatch.admitted]
    simp only
    rw [hentries,List.length_append,List.length_singleton]
  rw [he] at hlen
  omega

theorem not_atomic_of_oversized (h : Oversized K d envBytes) : ¬AtomicOnError K d envBytes hooks nowMs s := by
  obtain ⟨env,i,canonical,hp,hlong⟩ := h
  have hl : ¬i.action.length ≤ senderMaxAction := Nat.not_le.mpr hlong
  intro ha
  have hd : d.traced K envBytes hooks nowMs s=
      (.error (.err .ActionTooLarge),d.admitted i nowMs,(s,[])) := by
    rw [Dispatch.traced,dispatch_of_proposes hp,dif_neg hl]
  have hu := ha .ActionTooLarge (by rw [hd])
  have hi := hu.intents
  rw [hd] at hi
  exact admitted_intents_ne hp hi

/-- An error leaves everything alone, unless it is the one about the size of the
action of an intent that was admitted a moment before. -/
theorem atomic_on_error_iff (K : Crypto) (d : Dispatch) (envBytes : Bytes) (hooks : Hooks σ)
    (nowMs : UInt64) (s : σ) :
    AtomicOnError K d envBytes hooks nowMs s ↔ ¬Oversized K d envBytes := by
  constructor
  · exact fun ha h => not_atomic_of_oversized h ha
  · intro h e he
    cases happens K d envBytes hooks nowMs s with
    | proposes env i canonical hp =>
      have hl : i.action.length ≤ senderMaxAction := by
        by_contra hl
        exact h ⟨env,i,canonical,hp,Nat.lt_of_not_le hl⟩
      rw [Dispatch.traced,dispatch_of_proposes hp,dif_pos hl] at he
      cases he
    | executes grant hx =>
      rw [traced_of_executes hx] at he
      cases he
    | refuses env refusal cert hr =>
      rw [traced_of_refuses hr] at he
      cases he
    | idle hp hx hr =>
      obtain ⟨res,hd,_⟩ := traced_of_idle hp hx hr
      exact untouched_of_eq hd

end Atomic

/-- The intent of the peer with an action of 513 bytes. -/
def longIntentEnvelope : Envelope :=
  let e := unsignedEnvelope 1 bodyIntent (encodeIntent { sampleIntent with action := List.replicate 513 7 })
  { e with
    tbs := encodeEnvelope e
    sig := beBytes 32 0x58836306b4a0c18da01bd79e26ccca2c3c8de4c2ccd986d95f5f958dbe435410++
      beBytes 32 0xf59213c48d662573cc319ccd9e7078012616429679e4e9c22a17c22008610d0d }

def longCrypto : Crypto :=
  signing sampleCrypto [(peerKey,domainEnvelope::longIntentEnvelope.tbs,longIntentEnvelope.sig)]

/-- The error comes after the admission: the resource stays locked. -/
theorem oversized_action_admits :
    ¬AtomicOnError longCrypto sampleDispatch (encodeEnvelope longIntentEnvelope) sampleHooks 1000000 () := by
  intro h
  have he := h .ActionTooLarge (by decide +kernel)
  have hlen : ((sampleDispatch.traced longCrypto (encodeEnvelope longIntentEnvelope) sampleHooks
      1000000 ()).2.1.intentTable.entries.length=1) := by decide +kernel
  rw [he.intents] at hlen
  cases hlen

end Bolina.Transport
