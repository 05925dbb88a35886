import Bolina.Transport.DispatchRun

namespace Bolina.Transport

open Codec Intent GuardedRun

def tMaxMs : Nat := tMaxSDefault.toNat*1000
def tRecvMs : Nat := tRecvSDefault.toNat*1000

/-- A grant that was presented before is executed only inside the window and the
lifetime that count from that time. -/
def Anchored (K : Crypto) (s : History) : RunStep → Prop
  | .dispatch c =>
    ∀g∈s.dispatch.executed K c.envBytes c.hooks c.nowMs [],∀t,RunEvent.received g t∈s.log →
      c.nowMs.toNat ≤ t.toNat+tRecvMs ∧ g.notAfter.toNat ≤ t.toNat+tMaxMs
  | .expire _ => True

/-- The message carries this grant; it passes checks 0 to 9 and 11, it is not past
its end, and the end lies within the longest lifetime from now. -/
def Passes (K : Crypto) (s : History) (c : Call) (g : Grant) : Prop :=
  ∃env cert,parseEnvelope c.envBytes=.ok env ∧ verifyEnvelope K env=none ∧ parseGrant env.body=.ok g ∧
    c.certForSender env.sender=some cert ∧
    Matched K env g (s.dispatch.grantContext c.hooks [] cert c.nowMs) ∧
    c.alreadyConsumed g.grantId g.notAfter c.nowMs=false ∧
    c.nowMs < g.notAfter ∧ g.notAfter.toNat ≤ c.nowMs.toNat+tMaxMs ∧ c.nowMs.toNat+tMaxMs < 2^64

/-- The grant came before, and the window that opened then is over, or its end lies beyond
the longest lifetime from then. -/
def Overdue (s : History) (now : UInt64) (g : Grant) : Prop :=
  ∃t,RunEvent.received g t∈s.log ∧ (t.toNat+tRecvMs < now.toNat ∨ t.toNat+tMaxMs < g.notAfter.toNat)

/-- An intent waits for the grant, its lifetime as of now runs, and it is not consumed. -/
def Awaited (s : History) (c : Call) (g : Grant) : Prop :=
  (∃e∈s.dispatch.intentTable.entries,e.state=.Pending ∧ e.intentId.toList=g.intentId) ∧
    c.nowMs < g.notAfter ∧ g.notAfter.toNat ≤ c.nowMs.toNat+tMaxMs ∧
    c.alreadyConsumed g.grantId g.notAfter c.nowMs=false

/-- No grant comes overdue while it is awaited. -/
def Punctual (s : History) : RunStep → Prop
  | .dispatch c => ∀g,receipt c.envBytes=some g → Awaited s c g → ¬Overdue s c.nowMs g
  | .expire _ => True

/-- A grant that is awaited comes in good form: its message verifies and checks 0 to 9 pass. -/
def Genuine (K : Crypto) (s : History) : RunStep → Prop
  | .dispatch c => ∀g,receipt c.envBytes=some g → Awaited s c g →
      c.nowMs.toNat+tMaxMs < 2^64 ∧ ∃env cert,parseEnvelope c.envBytes=.ok env ∧ verifyEnvelope K env=none ∧
        c.certForSender env.sender=some cert ∧ Matched K env g (s.dispatch.grantContext c.hooks [] cert c.nowMs)
  | .expire _ => True

section FirstReceipt

variable {K : Crypto} {s : History} {c : Call} {g : Grant}

/-- With the receipt set to now, check 10 never looks at the receive window. -/
theorem inTime_now (cert : Cert) :
    (InTime g (s.dispatch.grantContext c.hooks [] cert c.nowMs) ∧
      ¬ExpiryOverflows g (s.dispatch.grantContext c.hooks [] cert c.nowMs)) ↔
    c.nowMs < g.notAfter ∧ g.notAfter.toNat ≤ c.nowMs.toNat+tMaxMs ∧ c.nowMs.toNat+tMaxMs < 2^64 := by
  have hmax : tMaxMs=3600000 := rfl
  have hrecv : tRecvMs=300000 := rfl
  have htime : InTime g (s.dispatch.grantContext c.hooks [] cert c.nowMs) ↔
      c.nowMs < g.notAfter ∧ g.notAfter.toNat ≤ c.nowMs.toNat+tMaxMs ∧
        c.nowMs.toNat ≤ c.nowMs.toNat+tRecvMs := Iff.rfl
  have hover : ExpiryOverflows g (s.dispatch.grantContext c.hooks [] cert c.nowMs) ↔
      2^64 ≤ tMaxMs ∨ 2^64 ≤ tRecvMs ∨ (c.nowMs < g.notAfter ∧ (2^64 ≤ c.nowMs.toNat+tMaxMs ∨
        (g.notAfter.toNat ≤ c.nowMs.toNat+tMaxMs ∧ 2^64 ≤ c.nowMs.toNat+tRecvMs))) := Iff.rfl
  rw [htime,hover,hmax,hrecv]
  constructor
  · intro h
    obtain ⟨⟨hnow,hlife,_⟩,ho⟩ := h
    refine ⟨hnow,hlife,?_⟩
    by_contra hge
    exact ho (Or.inr (Or.inr ⟨hnow,Or.inl (Nat.le_of_not_lt hge)⟩))
  · intro h
    obtain ⟨hnow,hlife,hfit⟩ := h
    refine ⟨⟨hnow,hlife,Nat.le_add_right _ _⟩,?_⟩
    intro ho
    obtain ho|ho|⟨_,ho|⟨_,ho⟩⟩ := ho
    all_goals omega

theorem executes_iff_passes : Executes K s.dispatch c.envBytes c.hooks c.nowMs [] g ↔ Passes K s c g := by
  constructor
  · intro h
    obtain ⟨env,cert,hp,hv,hg,hc,ha,ho⟩ := h.passes
    have ht := (inTime_now cert).mp ⟨ha.inTime,ho⟩
    exact ⟨env,cert,hp,hv,hg,hc,ha.toMatched,ha.fresh,ht⟩
  · intro h
    obtain ⟨env,cert,hp,hv,hg,hc,hm,hf,ht⟩ := h
    obtain ⟨hin,ho⟩ := (inTime_now cert).mpr ht
    exact ⟨env,cert,hp,hv,hg,hc,⟨hm,hin,hf⟩,ho⟩

theorem Passes.receipt (h : Passes K s c g) : receipt c.envBytes=some g :=
  receipt_of_executes (executes_iff_passes.mpr h)

theorem Passes.awaited (h : Passes K s c g) : Awaited s c g := by
  obtain ⟨env,cert,-,-,-,-,hm,hf,hnow,hlife,-⟩ := h
  obtain ⟨e,he,hp,hid,-⟩ := hm.intent
  exact ⟨⟨e,he,hp,hid⟩,hnow,hlife,hf⟩

theorem parses_of_receipt {env : Envelope} (hp : parseEnvelope c.envBytes=.ok env) (hr : receipt c.envBytes=some g) :
    parseGrant env.body=.ok g := by
  rw [Transport.receipt,hp] at hr
  dsimp only at hr
  split_ifs at hr
  cases hg : parseGrant env.body with
  | error e =>
    rw [hg] at hr
    cases hr
  | ok g' =>
    rw [hg] at hr
    cases hr
    rfl

theorem Passes.genuine (h : Passes K s c g) : Genuine K s (.dispatch c) := by
  intro g' hr _
  obtain rfl : g=g' := Option.some.inj (h.receipt.symm.trans hr)
  obtain ⟨env,cert,hp,hv,-,hc,hm,-,-,-,hfit⟩ := h
  exact ⟨hfit,env,cert,hp,hv,hc,hm⟩

/-- An awaited grant of good form is executed. -/
theorem Awaited.passes (ha : Awaited s c g) (hr : receipt c.envBytes=some g) (hg : Genuine K s (.dispatch c)) :
    Passes K s c g := by
  obtain ⟨hfit,env,cert,hp,hv,hc,hm⟩ := hg g hr ha
  obtain ⟨-,hnow,hlife,hf⟩ := ha
  exact ⟨env,cert,hp,hv,parses_of_receipt hp hr,hc,hm,hf,hnow,hlife,hfit⟩

theorem not_overdue_iff (s : History) (now : UInt64) (g : Grant) : ¬Overdue s now g ↔
    ∀t,RunEvent.received g t∈s.log → now.toNat ≤ t.toNat+tRecvMs ∧ g.notAfter.toNat ≤ t.toNat+tMaxMs := by
  simp only [Overdue,not_exists,not_and,not_or,Nat.not_lt]

/-- What is executed is awaited, so a punctual presentation keeps to the first receipt. -/
theorem anchored_of_punctual (s : History) (x : RunStep) (h : Punctual s x) : Anchored K s x := by
  cases x with
  | expire nowMs => trivial
  | dispatch c =>
    intro g hg t ht
    have hp := executes_iff_passes.mp (mem_executed_iff.mp hg)
    exact (not_overdue_iff s c.nowMs g).mp (h g hp.receipt hp.awaited) t ht

/-- An overdue presentation of good form is executed all the same. -/
theorem punctual_of_anchored (s : History) (x : RunStep) (hx : Genuine K s x) (h : Anchored K s x) : Punctual s x := by
  cases x with
  | expire nowMs => trivial
  | dispatch c =>
    intro g hr ha
    rw [not_overdue_iff]
    intro t ht
    exact h g (mem_executed_iff.mpr (executes_iff_passes.mpr (ha.passes hr hx))) t ht

/-- The first receipt is kept to along every run in which no grant comes overdue while it
is awaited, and along no other run whose awaited grants are of good form. -/
theorem first_receipt_iff (K : Crypto) (resolver : Resolver) (ownPubkey : Bytes) (steps : List RunStep) :
    (Meets (History.step K) Punctual (History.start resolver ownPubkey) steps →
      Meets (History.step K) (Anchored K) (History.start resolver ownPubkey) steps) ∧
    (Meets (History.step K) (Genuine K) (History.start resolver ownPubkey) steps →
      (Meets (History.step K) (Anchored K) (History.start resolver ownPubkey) steps ↔
        Meets (History.step K) Punctual (History.start resolver ownPubkey) steps)) := by
  refine ⟨meets_mono anchored_of_punctual _ steps,fun hg => ⟨?_,meets_mono anchored_of_punctual _ steps⟩⟩
  intro ha
  exact meets_mono (fun s x h => punctual_of_anchored s x h.1 h.2) _ steps (meets_and _ steps hg ha)

end FirstReceipt

section Sample

/-- The grant comes before its intent, and again at 1000000. -/
def presentedFrom (first : UInt64) : List RunStep :=
  [.dispatch (sampleCall (encodeEnvelope grantEnvelope) first),
    .dispatch (sampleCall (encodeEnvelope intentEnvelope) 999999),
    .dispatch (sampleCall (encodeEnvelope grantEnvelope) 1000000)]

theorem punctual_in_window {s : History} {c : Call} (recent : List RunEvent) (hr : receipt c.envBytes=some sampleGrant)
    (hlog : s.log=recent++[.received sampleGrant 700000])
    (hrecent : recent.all (fun ev => !(ev matches .received _ _))=true) (hnow : c.nowMs.toNat ≤ 700000+tRecvMs) :
    Punctual s (.dispatch c) := by
  intro g hg ha
  rw [Option.some.inj (hg.symm.trans hr),not_overdue_iff]
  intro t ht
  rw [hlog,List.mem_append,List.mem_singleton] at ht
  rcases ht with hm|he
  · have hev := List.all_eq_true.mp hrecent _ hm
    cases hev
  · cases he
    exact ⟨hnow,by decide⟩

theorem unawaited_start {c : Call} {g : Grant} : ¬Awaited sampleHistory c g := by
  intro ha
  obtain ⟨⟨e,he,-⟩,-⟩ := ha
  cases he

theorem intent_carries_none : receipt (encodeEnvelope intentEnvelope)=none := by decide +kernel

/-- Before its intent the grant is not awaited, and after it the grant is of good form. -/
theorem presented_genuine : Meets (History.step sampleCrypto) (Genuine sampleCrypto) sampleHistory (presentedFrom 699999) := by
  refine ⟨?_,?_,?_,trivial⟩
  · exact fun g _ ha => absurd ha unawaited_start
  · exact fun g hr => absurd (intent_carries_none.symm.trans hr) (by simp)
  · exact Passes.genuine (executes_iff_passes.mp (mem_executed_iff.mp
      (by decide +kernel : sampleGrant∈Dispatch.executed sampleCrypto _ _ _ _ _)))

/-- At the end of its window the grant is executed; a run in which it comes later is one of those that the condition
decides. -/
theorem first_receipt_sample :
    Meets (History.step sampleCrypto) (Anchored sampleCrypto) sampleHistory (presentedFrom 700000) ∧
      RunEvent.executed sampleGrant .Fired∈((presentedFrom 700000).foldl (History.step sampleCrypto) sampleHistory).log ∧
      (Meets (History.step sampleCrypto) (Anchored sampleCrypto) sampleHistory (presentedFrom 699999) ↔
        Meets (History.step sampleCrypto) Punctual sampleHistory (presentedFrom 699999)) := by
  have hgrant : receipt (encodeEnvelope grantEnvelope)=some sampleGrant := by decide +kernel
  refine ⟨(first_receipt_iff sampleCrypto sampleDispatch.resolver nodeKey (presentedFrom 700000)).1 ⟨?_,?_,?_,trivial⟩,
    by decide +kernel,
    (first_receipt_iff sampleCrypto sampleDispatch.resolver nodeKey (presentedFrom 699999)).2 presented_genuine⟩
  · exact fun g _ ha => absurd ha unawaited_start
  · exact fun g hr => absurd (intent_carries_none.symm.trans hr) (by simp)
  · exact punctual_in_window [.admitted (fixed 16 sampleGrant.intentId) intentEnvelope.sender sampleAction]
      hgrant (by decide +kernel) rfl (by decide)

/-- The grant comes before its intent, and again 300001 ms later. -/
theorem executed_after_window :
    ¬Meets (History.step sampleCrypto) (Anchored sampleCrypto) sampleHistory
      [.dispatch (sampleCall (encodeEnvelope grantEnvelope) 699999),
        .dispatch (sampleCall (encodeEnvelope intentEnvelope) 999999),
        .dispatch (sampleCall (encodeEnvelope grantEnvelope) 1000000)] := by
  intro h
  have hexec := h.2.2.1 sampleGrant (by decide +kernel) 699999 (by decide +kernel)
  have hlate : ¬(1000000 : UInt64).toNat ≤ (699999 : UInt64).toNat+tRecvMs := by decide
  exact hlate hexec.1

end Sample

end Bolina.Transport
