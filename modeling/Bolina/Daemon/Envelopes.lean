import Bolina.Daemon.Endpoint
import Bolina.Evidence.Causal
import Bolina.Framework.GuardedRun

namespace Bolina

open Codec State Transport Control Noise GuardedRun
open Evidence (Hash)

/-- A plaintext given to `handle_envelope`, with the clock and the file operations it finds. -/
structure Arrival where
  plain : Bytes
  now : UInt64
  io : Io

abbrev Triple := FixedBytes 32 × FixedBytes 32 × UInt64

def tripleOf (plain : Bytes) : Option Triple :=
  match parseEnvelope plain with
  | .error _ => none
  | .ok env => some (fixed 32 env.sender,fixed 32 env.channelId,env.seq)

def Evidence.Ledger.find (L : Evidence.Ledger) (τ : Triple) : Option Hash := L.findEnvelope τ.1 τ.2.1 τ.2.2

section Arrivals

variable (S : Suite)

def arrive (o : Option Endpoint) (a : Arrival) : Option Endpoint :=
  o.bind (fun e => e.handleEnvelope S a.io a.now a.plain)

/-- The arrival reaches the dispatcher, under this triple. -/
def dispatches (τ : Triple) (o : Option Endpoint) (a : Arrival) : Bool :=
  match o with
  | none => false
  | some e => (e.gate S a.plain).1 && tripleOf a.plain==some τ

/-- The checks that read nothing of the daemon. -/
structure Sealed (plain : Bytes) (env : Envelope) : Prop where
  parses : parseEnvelope plain=.ok env
  widths : ¬(env.sender.length≠32 ∨ env.channelId.length≠32)
  signed : verifyEnvelope S.toCrypto env=none
  parents : ¬env.parents.length≠env.parentCount.toNat*32

variable {S} {e : Endpoint} {plain : Bytes}

theorem Sealed.eq {env env' : Envelope} (h : Sealed S plain env') (hp : parseEnvelope plain=.ok env) : env'=env :=
  Except.ok.inj (h.parses.symm.trans hp)

theorem tripleOf_sealed {env : Envelope} (h : Sealed S plain env) :
    tripleOf plain=some (fixed 32 env.sender,fixed 32 env.channelId,env.seq) := by
  rw [tripleOf,h.parses]

/-- What the gates make of a plaintext: it fails a check that reads nothing of the
daemon, its triple is stored, or the evidence ledger answers. -/
inductive Gated (S : Suite) (e : Endpoint) (plain : Bytes) : Bool × Endpoint → Prop
  | unsealed (c : WireRejectClass) (h : ∀env,¬Sealed S plain env) : Gated S e plain (false,e.reject c)
  | duplicate (env : Envelope) (h : Sealed S plain env)
      (found : e.mem.findEnvelope (fixed 32 env.sender) (fixed 32 env.channelId) env.seq=some (S.blake2s plain)) :
      Gated S e plain (false,e)
  | diverges (env : Envelope) (existing : Hash) (h : Sealed S plain env)
      (found : e.mem.findEnvelope (fixed 32 env.sender) (fixed 32 env.channelId) env.seq=some existing)
      (other : existing≠S.blake2s plain) : Gated S e plain (false,e.reject .VEquivocation)
  | refused (env : Envelope) (ve : VerifyError) (mem : Evidence.Ledger) (h : Sealed S plain env)
      (new : e.mem.findEnvelope (fixed 32 env.sender) (fixed 32 env.channelId) env.seq=none)
      (answer : e.mem.verifyEnvelopeAdmission (S.blake2s plain) (fixed 32 env.sender) (fixed 32 env.channelId) env.seq
        (chunks32 env.parents)=(.error ve,mem)) : Gated S e plain (false,{ e with mem }.reject (.ofVerify ve))
  | passes (env : Envelope) (mem : Evidence.Ledger) (h : Sealed S plain env)
      (new : e.mem.findEnvelope (fixed 32 env.sender) (fixed 32 env.channelId) env.seq=none)
      (answer : e.mem.verifyEnvelopeAdmission (S.blake2s plain) (fixed 32 env.sender) (fixed 32 env.channelId) env.seq
        (chunks32 env.parents)=(.ok (),mem)) : Gated S e plain (true,{ e with mem })

theorem gated (S : Suite) (e : Endpoint) (plain : Bytes) : Gated S e plain (e.gate S plain) := by
  rw [Endpoint.gate]
  cases hp : parseEnvelope plain with
  | error pe =>
    refine .unsealed _ ?_
    intro env h
    rw [h.parses] at hp
    cases hp
  | ok env =>
    simp only
    by_cases hw : env.sender.length≠32 ∨ env.channelId.length≠32
    · rw [if_pos hw]
      exact .unsealed _ (fun env' h => (h.eq hp ▸ h).widths hw)
    rw [if_neg hw]
    cases hv : verifyEnvelope S.toCrypto env with
    | some ve =>
      refine .unsealed _ ?_
      intro env' h
      rw [h.eq hp] at h
      rw [h.signed] at hv
      cases hv
    | none =>
      simp only
      by_cases hc : env.parents.length≠env.parentCount.toNat*32
      · rw [if_pos hc]
        exact .unsealed _ (fun env' h => (h.eq hp ▸ h).parents hc)
      rw [if_neg hc]
      have hs : Sealed S plain env := ⟨hp,hw,hv,hc⟩
      cases hf : e.mem.findEnvelope (fixed 32 env.sender) (fixed 32 env.channelId) env.seq with
      | some existing =>
        simp only
        by_cases he : existing=S.blake2s plain
        · rw [if_pos he]
          rw [he] at hf
          exact .duplicate env hs hf
        · rw [if_neg he]
          exact .diverges env existing hs hf he
      | none =>
        cases ha : e.mem.verifyEnvelopeAdmission (S.blake2s plain) (fixed 32 env.sender) (fixed 32 env.channelId)
            env.seq (chunks32 env.parents) with
        | mk res mem =>
          cases res with
          | error ve => exact .refused env ve mem hs hf ha
          | ok _ => exact .passes env mem hs hf ha

/-- An envelope that goes on to the dispatcher was not stored, and is now. -/
theorem gate_passes (h : (e.gate S plain).1=true) :
    ∃env,Sealed S plain env ∧ e.mem.findEnvelope (fixed 32 env.sender) (fixed 32 env.channelId) env.seq=none ∧
      (e.gate S plain).2.mem.findEnvelope (fixed 32 env.sender) (fixed 32 env.channelId) env.seq=
        some (S.blake2s plain) := by
  have hg := gated S e plain
  generalize e.gate S plain=r at h hg ⊢
  cases hg with
  | passes env mem hs hn ha =>
    have hfound := @Evidence.found_of_admitted e.mem
      ⟨S.blake2s plain,fixed 32 env.sender,fixed 32 env.channelId,env.seq,chunks32 env.parents⟩
    rw [Evidence.Ledger.answer,ha] at hfound
    exact ⟨env,hs,hn,hfound rfl⟩
  | _ => cases h

/-- A second copy of a stored envelope goes no further, and nothing is counted. -/
theorem gate_duplicate {env : Envelope} (h : Sealed S plain env)
    (hf : e.mem.findEnvelope (fixed 32 env.sender) (fixed 32 env.channelId) env.seq=some (S.blake2s plain)) :
    e.gate S plain=(false,e) := by
  have hg := gated S e plain
  generalize e.gate S plain=r at hg ⊢
  cases hg with
  | unsealed c hn => exact absurd h (hn env)
  | duplicate env' h' found => rfl
  | diverges env' existing h' found other =>
    rw [h'.eq h.parses,hf] at found
    exact absurd (Option.some.inj found).symm other
  | refused env' ve mem h' new answer =>
    rw [h'.eq h.parses,hf] at new
    cases new
  | passes env' mem h' new answer =>
    rw [h'.eq h.parses,hf] at new
    cases new

theorem gate_grows : e.mem.envelopes <+: (e.gate S plain).2.mem.envelopes := by
  have hgrown : ∀(env : Envelope) res mem,e.mem.verifyEnvelopeAdmission (S.blake2s plain) (fixed 32 env.sender)
      (fixed 32 env.channelId) env.seq (chunks32 env.parents)=(res,mem) → e.mem.envelopes <+: mem.envelopes := by
    intro env res mem ha
    have hg := Evidence.answer_grows e.mem
      ⟨S.blake2s plain,fixed 32 env.sender,fixed 32 env.channelId,env.seq,chunks32 env.parents⟩
    rw [Evidence.Ledger.answer,ha] at hg
    exact hg
  have hg := gated S e plain
  generalize e.gate S plain=r at hg ⊢
  cases hg with
  | unsealed | duplicate | diverges => exact List.prefix_rfl
  | refused env ve mem _ _ answer => exact hgrown env _ mem answer
  | passes env mem _ _ answer => exact hgrown env _ mem answer

/-- The dispatcher leaves the evidence ledger as the gates left it. -/
theorem handleEnvelope_mem {io : Io} {now : UInt64} {e' : Endpoint}
    (h : e.handleEnvelope S io now plain=some e') : e'.mem=(e.gate S plain).2.mem := by
  rw [Endpoint.handleEnvelope] at h
  cases hg : e.gate S plain with
  | mk b g =>
    rw [hg] at h
    cases b with
    | false =>
      cases h
      rfl
    | true =>
      simp only [Option.map_eq_some_iff] at h
      obtain ⟨dd,_,rfl⟩ := h
      rfl

/-- A stored triple stays stored under its hash. -/
theorem find_handleEnvelope {io : Io} {now : UInt64} {e' : Endpoint} {τ : Triple} {v : Hash}
    (h : e.handleEnvelope S io now plain=some e') (hf : e.mem.find τ=some v) : e'.mem.find τ=some v := by
  rw [Evidence.Ledger.find,handleEnvelope_mem h]
  exact Evidence.find_of_grown gate_grows _ _ _ v hf

/-- A stored triple is past its dispatch. -/
def StoredTriple (τ : Triple) (o : Option Endpoint) : Prop := ∀e,o=some e → ∃v,e.mem.find τ=some v

theorem triple_spends (S : Suite) (τ : Triple) :
    Spends (arrive S) (dispatches S τ) (fun _ _ => True) (StoredTriple τ) where
  refuse o a _ hs := by
    cases o with
    | none => rfl
    | some e =>
      obtain ⟨v,hv⟩ := hs e rfl
      rw [Bool.eq_false_iff]
      intro hd
      rw [dispatches,Bool.and_eq_true,beq_iff_eq] at hd
      obtain ⟨env,hsealed,hnone,_⟩ := gate_passes hd.1
      have hτ := (tripleOf_sealed hsealed).symm.trans hd.2
      cases hτ
      rw [Evidence.Ledger.find,hnone] at hv
      cases hv
  keep o a _ hs := by
    intro e' he'
    obtain ⟨e,rfl,he⟩ := Option.bind_eq_some_iff.mp he'
    obtain ⟨v,hv⟩ := hs e rfl
    exact ⟨v,find_handleEnvelope he hv⟩
  spend o a _ hd := by
    intro e' he'
    obtain ⟨e,rfl,he⟩ := Option.bind_eq_some_iff.mp he'
    rw [dispatches,Bool.and_eq_true,beq_iff_eq] at hd
    obtain ⟨env,hsealed,_,hfound⟩ := gate_passes hd.1
    have hτ := (tripleOf_sealed hsealed).symm.trans hd.2
    cases hτ
    refine ⟨S.blake2s a.plain,?_⟩
    rw [Evidence.Ledger.find,handleEnvelope_mem he]
    exact hfound

/-- A process that has ended stays ended. -/
theorem arrive_none (S : Suite) (as : List Arrival) : as.foldl (arrive S) none=none := by
  induction as with
  | nil => rfl
  | cons a as ih => exact ih

theorem find_run {τ : Triple} {v : Hash} (as : List Arrival) (e e' : Endpoint)
    (h : as.foldl (arrive S) (some e)=some e') (hf : e.mem.find τ=some v) : e'.mem.find τ=some v := by
  induction as generalizing e with
  | nil =>
    cases h
    exact hf
  | cons a as ih =>
    rw [List.foldl_cons] at h
    cases hs : arrive S (some e) a with
    | none =>
      rw [hs,arrive_none] at h
      cases h
    | some e₁ =>
      rw [hs] at h
      exact ih e₁ h (find_handleEnvelope hs hf)

/-- An envelope that was let in once changes nothing when it comes again. -/
theorem redelivery_idle (as : List Arrival) (e e₁ e₂ : Endpoint) (a b : Arrival)
    (hpass : (e.gate S a.plain).1=true) (ha : e.handleEnvelope S a.io a.now a.plain=some e₁)
    (hrun : as.foldl (arrive S) (some e₁)=some e₂) (hb : b.plain=a.plain) :
    e₂.handleEnvelope S b.io b.now b.plain=some e₂ := by
  obtain ⟨env,hsealed,_,hfound⟩ := gate_passes hpass
  rw [← handleEnvelope_mem ha] at hfound
  have hstill : e₂.mem.findEnvelope (fixed 32 env.sender) (fixed 32 env.channelId) env.seq=
      some (S.blake2s a.plain) :=
    @find_run S (fixed 32 env.sender,fixed 32 env.channelId,env.seq) _ as e₁ e₂ hrun hfound
  rw [hb,Endpoint.handleEnvelope,gate_duplicate hsealed hstill]

/-- From a fresh daemon, every triple reaches the dispatcher at most once, and an
envelope that has reached it changes no state when it is delivered again. -/
theorem dispatch_exactly_once (S : Suite) (keys : Keys) (resolver : Resolver) (ledger : Option GrantLedger)
    (disk : Disk) :
    (∀as τ,count (arrive S) (dispatches S τ) (some (Endpoint.boot S keys resolver ledger disk)) as≤1) ∧
      ∀as bs : List Arrival,∀a b : Arrival,∀e e' : Endpoint,
        as.foldl (arrive S) (some (Endpoint.boot S keys resolver ledger disk))=some e →
        (e.gate S a.plain).1=true →
        (a::bs).foldl (arrive S) (some e)=some e' →
        b.plain=a.plain →
        arrive S (some e') b=some e' := by
  constructor
  · intro as τ
    have hm := @meets_of_invariant _ _ (arrive S) (fun _ _ => True) (fun _ => True) (fun _ _ _ => trivial)
      (fun _ _ _ => trivial) (some (Endpoint.boot S keys resolver ledger disk)) as trivial
    exact (triple_spends S τ).count_le_one _ as hm
  · intro as bs a b e e' _ hpass hrun hb
    rw [List.foldl_cons] at hrun
    cases ha : arrive S (some e) a with
    | none =>
      rw [ha,arrive_none] at hrun
      cases hrun
    | some e₁ =>
      rw [ha] at hrun
      exact redelivery_idle bs e e₁ e' a b hpass ha hrun hb

end Arrivals

section Sample

/-- The sample messages, with BLAKE2s for their hashes. -/
def envelopeSuite : Suite := { sampleSuite with ed25519 := sampleCrypto.ed25519 }

def freshEndpoint : Endpoint :=
  Endpoint.boot envelopeSuite ⟨zeroKey,fixed 32 nodeKey,[]⟩ (Resolver.new envelopeSuite.toCrypto nodeKey) none ⟨[],none,[]⟩

def intentArrival (now : UInt64) : Arrival := ⟨encodeEnvelope intentEnvelope,now,Io.good⟩

/-- An intent is dispatched, and a minute later its second copy changes nothing. -/
theorem dispatch_exactly_once_sample :
    (freshEndpoint.gate envelopeSuite (intentArrival 1000000).plain).1=true ∧
      ∃e,arrive envelopeSuite (some freshEndpoint) (intentArrival 1000000)=some e ∧
        arrive envelopeSuite (some e) (intentArrival 1060000)=some e := by
  have hpass : (freshEndpoint.gate envelopeSuite (intentArrival 1000000).plain).1=true := by decide +kernel
  have hsome : (arrive envelopeSuite (some freshEndpoint) (intentArrival 1000000)).isSome=true := by decide +kernel
  obtain ⟨e,he⟩ := Option.isSome_iff_exists.mp hsome
  have hrun : [intentArrival 1000000].foldl (arrive envelopeSuite) (some freshEndpoint)=some e := by
    rw [List.foldl_cons,List.foldl_nil,he]
  exact ⟨hpass,e,he,(dispatch_exactly_once envelopeSuite ⟨zeroKey,fixed 32 nodeKey,[]⟩
    (Resolver.new envelopeSuite.toCrypto nodeKey) none ⟨[],none,[]⟩).2 [] [] (intentArrival 1000000)
    (intentArrival 1060000) freshEndpoint e rfl hpass hrun rfl⟩

end Sample

end Bolina
