import Bolina.Daemon.Provenance
import Bolina.Evidence.LedgerTables

namespace Bolina

open Codec Intent State Transport Control Noise PartialRun BigEndian
open Evidence (EnvelopeEntry maxEnvelopes)

/-- What the evidence ledger is asked about an envelope. -/
def envelopeCall (S : Suite) (plain : Bytes) (env : Envelope) : Evidence.Call :=
  ⟨S.blake2s plain,fixed 32 env.sender,fixed 32 env.channelId,env.seq,chunks32 env.parents⟩

/-- The datagram opens on a bound session to an envelope that passes the checks that read nothing of the node, and that
the ledger has nothing under. -/
structure Submits (S : Suite) (A : Aead) (e : Endpoint) (pkt plain : Bytes) (session : Transport.Session) (env : Envelope) :
    Prop where
  kind : pkt.head?=some 4
  opens : e.opens A pkt=some (session,plain)
  bound : session.bound=true
  sealedAs : Sealed S plain env
  unheld : e.mem.held (envelopeCall S plain env)=none

/-- What a tick asks of the ledger. -/
inductive Asking (S : Suite) (A : Aead) (s : Controlled) : Tick → Option Evidence.Call → Prop
  | nothing (x : Tick) : Asking S A s x none
  | envelope (pkt plain : Bytes) (out : Outside) (session : Transport.Session) (env : Envelope)
      (h : Submits S A s.endpoint pkt plain session env) :
      Asking S A s (.input (.datagram pkt out)) (some (envelopeCall S plain env))

/-- The ledger behind what it was asked. -/
def asked (L : Evidence.Ledger) : Option Evidence.Call → Evidence.Ledger
  | none => L
  | some c => (L.answer c).2

section Step

variable {S : Suite} {A : Aead} {keys : Keys} {e e' : Endpoint} {out : Outside} {pkt plain : Bytes} {acts : List Act}

theorem handleEnvelope_asks {io : Io} {now : UInt64} (h : e.handleEnvelope S io now plain=some e') :
    e'.mem=e.mem ∨ ∃env,Sealed S plain env ∧ e.mem.held (envelopeCall S plain env)=none ∧
      e'.mem=(e.mem.answer (envelopeCall S plain env)).2 := by
  rw [handleEnvelope_mem h]
  have hg := gated S e plain
  generalize e.gate S plain=r at hg ⊢
  cases hg with
  | unsealed | duplicate | diverges => exact .inl rfl
  | refused env ve mem hs hn ha =>
    refine .inr ⟨env,hs,hn,?_⟩
    rw [Evidence.Ledger.answer,envelopeCall,ha]
    rfl
  | passes env mem hs hn ha =>
    refine .inr ⟨env,hs,hn,?_⟩
    rw [Evidence.Ledger.answer,envelopeCall,ha]

theorem setBound_mem (e : Endpoint) (idx : UInt32) : (e.setBound idx).mem=e.mem := by
  rw [Endpoint.setBound]
  cases e.sessions.lookup idx <;> rfl

theorem handleTransport_asks {s : Controlled} (hk : pkt.head?=some 4)
    (h : s.endpoint.handleTransport S A keys out pkt=some (e',acts)) :
    ∃c,Asking S A s (.input (.datagram pkt out)) c ∧ e'.mem=asked s.endpoint.mem c := by
  cases handleTransport_ends h with
  | ignored => exact ⟨_,.nothing _,rfl⟩
  | closed => exact ⟨_,.nothing _,rfl⟩
  | envelope session recv plain _ opens found key bound handled =>
    rcases handleEnvelope_asks handled with hsame|⟨env,hs,hn,hm⟩
    · exact ⟨_,.nothing _,hsame⟩
    · exact ⟨_,.envelope pkt plain out session env ⟨hk,opens,bound,hs,hn⟩,hm⟩
  | binding session recv plain _ _ opens found key unbound ends =>
    refine ⟨_,.nothing _,?_⟩
    cases ends with
    | refused => rfl
    | silent => rfl
    | binds => exact setBound_mem _ _

/-- A tick asks the ledger once or not at all, and nothing else moves it. -/
theorem step_asks {s s' : Controlled} {x : Tick} (h : s.step S A keys x=some s') :
    ∃c,Asking S A s x c ∧ s'.endpoint.mem=asked s.endpoint.mem c := by
  cases x with
  | request buf now =>
    cases h
    exact ⟨_,.nothing _,rfl⟩
  | input y =>
    obtain ⟨⟨e₁,acts⟩,he,heq⟩ := Option.map_eq_some_iff.mp h
    cases heq
    cases y with
    | sweep now =>
      cases he
      exact ⟨_,.nothing _,(releaseStale_frame now s.endpoint).2⟩
    | datagram pkt out =>
      by_cases h4 : pkt.head?=some 4
      · rw [Endpoint.step,handleDatagram_transport h4] at he
        exact handleTransport_asks h4 he
      by_cases h1 : pkt.head?=some 1
      · rw [Endpoint.step,handleDatagram_first h1] at he
        exact ⟨_,.nothing _,(handleHandshake_frame he).2⟩
      refine ⟨_,.nothing _,?_⟩
      cases pkt with
      | nil =>
        cases he
        rfl
      | cons b rest =>
        rw [Endpoint.step,Endpoint.handleDatagram.eq_def] at he
        dsimp only at he
        rw [if_neg (fun hb => h1 (congrArg some hb)),if_neg (fun hb => h4 (congrArg some hb))] at he
        cases he
        rfl

end Step

/-- A ledger and one that it has grown to. -/
structure Grown (L M : Evidence.Ledger) : Prop where
  stored : L.envelopes <+: M.envelopes
  counted : M.insertsTotal+(L.envelopes.length+L.storefullTotal)=L.insertsTotal+(M.envelopes.length+M.storefullTotal)
  refused : L.storefullTotal ≤ M.storefullTotal
  full : L.storefullTotal < M.storefullTotal → maxEnvelopes ≤ M.envelopes.length

theorem Grown.refl (L : Evidence.Ledger) : Grown L L := ⟨List.prefix_rfl,rfl,Nat.le_refl _,fun h => absurd h (Nat.lt_irrefl _)⟩

theorem Grown.trans {L M N : Evidence.Ledger} (h : Grown L M) (h' : Grown M N) : Grown L N := by
  have hcounted := h.counted
  have hcounted' := h'.counted
  refine ⟨h.stored.trans h'.stored,by omega,h.refused.trans h'.refused,?_⟩
  intro hlt
  by_cases hm : L.storefullTotal < M.storefullTotal
  · exact (h.full hm).trans h'.stored.length_le
  · exact h'.full (by have := h.refused; omega)

theorem asked_grown (L : Evidence.Ledger) (c : Option Evidence.Call) : Grown L (asked L c) := by
  cases c with
  | none => exact .refl L
  | some c =>
    rw [asked]
    have ha := Evidence.admission L c
    generalize (L.answer c).1=res at ha
    generalize (L.answer c).2=M at ha ⊢
    cases ha with
    | orphan => exact .refl L
    | stale => exact .refl L
    | again => exact ⟨List.prefix_rfl,rfl,Nat.le_refl _,fun h => absurd h (Nat.lt_irrefl _)⟩
    | divergent => exact ⟨List.prefix_rfl,rfl,Nat.le_refl _,fun h => absurd h (Nat.lt_irrefl _)⟩
    | full N hp ha hs hf hl =>
      refine ⟨List.prefix_rfl,?_,Nat.le_succ _,fun _ => hl⟩
      change L.insertsTotal+1+(L.envelopes.length+L.storefullTotal)=L.insertsTotal+(L.envelopes.length+(L.storefullTotal+1))
      omega
    | stored N hp ha hs hf hl =>
      refine ⟨List.prefix_append _ _,?_,Nat.le_refl _,fun h => absurd h (Nat.lt_irrefl _)⟩
      change L.insertsTotal+1+(L.envelopes.length+L.storefullTotal)=
        L.insertsTotal+((L.envelopes++[c.entry]).length+L.storefullTotal)
      rw [List.length_append,List.length_singleton]
      omega

section Runs

variable {S : Suite} {A : Aead} {keys : Keys} {s s' : Controlled} {xs : List Tick}

/-- Along a run the ledger only grows, and the gauge counts what it stores and what it has no room for. -/
theorem run_grown (h : PartialRun.run (fun s x => s.step S A keys x) s xs=some s') : Grown s.endpoint.mem s'.endpoint.mem := by
  apply @related _ _ _ _ _ _ (fun _ => True) (fun s s' => Grown s.endpoint.mem s'.endpoint.mem) (fun s => .refl _)
    ?_ (fun _ _ _ _ _ => trivial) ?_ h trivial
  · intro a b c hab hbc
    exact Grown.trans hab hbc
  · intro s x s' _ hx
    obtain ⟨c,-,hm⟩ := step_asks hx
    rw [hm]
    exact asked_grown _ c

/-- No triple has two envelopes, and there are no more than the ledger has room for. -/
def Distinct (L : Evidence.Ledger) : Prop := KeyedTable.Bounded EnvelopeEntry.key maxEnvelopes L.envelopes

theorem run_distinct (h : PartialRun.run (fun s x => s.step S A keys x) s xs=some s') (hd : Distinct s.endpoint.mem) :
    Distinct s'.endpoint.mem := by
  apply @invariant _ _ _ _ _ _ (fun s => Distinct s.endpoint.mem) ?_ h hd
  intro s x s' hs hx
  obtain ⟨c,-,hm⟩ := step_asks hx
  rw [hm]
  cases c with
  | none => exact hs
  | some c =>
    rw [asked]
    have ha := Evidence.admission s.endpoint.mem c
    generalize (s.endpoint.mem.answer c).1=res at ha
    generalize (s.endpoint.mem.answer c).2=M at ha ⊢
    cases ha with
    | stored N hp ha ho hf hl =>
      have hnew := Evidence.envelope_key_new s.endpoint.mem.envelopes c.entry (Option.map_eq_none_iff.mp hf)
      exact hs.append c.entry hnew (Nat.lt_of_not_le hl)
    | _ => exact hs

/-- An envelope that comes into the ledger was submitted by a tick, and its parents were there. -/
theorem envelope_came {n : EnvelopeEntry} (h : PartialRun.run (fun s x => s.step S A keys x) s xs=some s')
    (hnew : n∉s.endpoint.mem.envelopes) (hn : n∈s'.endpoint.mem.envelopes) :
    ∃pre post a pkt plain out session env,xs=pre++.input (.datagram pkt out)::post ∧
      PartialRun.run (fun s x => s.step S A keys x) s pre=some a ∧ Submits S A a.endpoint pkt plain session env ∧
      n=(envelopeCall S plain env).entry ∧ ∀p∈chunks32 env.parents,∃m∈a.endpoint.mem.envelopes,m.hash=p := by
  obtain ⟨a,x,b,post,htook,-,ha,hb⟩ := @came _ _ _ _ _ _ (fun s => n∈s.endpoint.mem.envelopes) h hnew hn
  obtain ⟨⟨pre,hxs,hpre⟩,htaken⟩ := htook
  obtain ⟨c,hc,hm⟩ := step_asks htaken
  rw [hm] at hb
  cases hc with
  | nothing => exact absurd hb ha
  | envelope pkt plain out session env hs =>
    rcases Evidence.answer_store a.endpoint.mem (envelopeCall S plain env) with hsame|⟨hstored,hok⟩
    · rw [asked,hsame] at hb
      exact absurd hb ha
    · rw [asked,hstored,List.mem_append,or_iff_right ha,List.mem_singleton] at hb
      exact ⟨pre,post,a,pkt,plain,out,session,env,hxs,hpre,hs,hb,Evidence.parents_of_admitted hok⟩

end Runs

/-- Whatever comes in, the evidence ledger only grows: by envelopes of bound sessions, each with its parents in front of
it, no triple twice, and as many as there is room for; the gauge counts what is stored and what there was no room for. -/
theorem evidence_provenance (S : Suite) (A : Aead) (keys : Keys) (resolver : Resolver) (ledger : Option GrantLedger)
    (disk : Disk) (token : Option (FixedBytes 64)) (xs ys : List Tick) :
    let boot := Controlled.boot S keys resolver ledger disk token
    ∃s s',boot.run S A keys xs=some s ∧ boot.run S A keys (xs++ys)=some s' ∧
      s.endpoint.mem.envelopes <+: s'.endpoint.mem.envelopes ∧ (s'.endpoint.mem.envelopes.map EnvelopeEntry.key).Nodup ∧
      s'.endpoint.mem.envelopes.length ≤ maxEnvelopes ∧
      s'.endpoint.mem.insertsTotal=s'.endpoint.mem.envelopes.length+s'.endpoint.mem.storefullTotal ∧
      (s.endpoint.mem.storefullTotal < s'.endpoint.mem.storefullTotal →
        s'.endpoint.mem.envelopes.length=maxEnvelopes) ∧
      ∀n∈s'.endpoint.mem.envelopes,n∉s.endpoint.mem.envelopes →
        ∃pre post a pkt plain out session env,ys=pre++.input (.datagram pkt out)::post ∧
          boot.run S A keys (xs++pre)=some a ∧ Submits S A a.endpoint pkt plain session env ∧
          n=(envelopeCall S plain env).entry ∧ ∀p∈chunks32 env.parents,∃m∈a.endpoint.mem.envelopes,m.hash=p := by
  intro boot
  have hboot : boot.Sound S keys := sound_boot S keys resolver ledger disk token
  obtain ⟨s,hrun,hs⟩ := never_ends (fun s x (h : s.Sound S keys) => h.step A x) boot hboot xs
  obtain ⟨s',hrun',-⟩ := never_ends (fun s x (h : s.Sound S keys) => h.step A x) s hs ys
  have hsplit : ∀pre,boot.run S A keys (xs++pre)=PartialRun.run (fun s x => s.step S A keys x) s pre := by
    intro pre
    rw [Controlled.run_eq_partial,PartialRun.run_append,hrun,Option.bind_some]
  have hall : PartialRun.run (fun s x => s.step S A keys x) boot (xs++ys)=some s' :=
    (boot.run_eq_partial _).symm.trans ((hsplit ys).trans hrun')
  have hgrown := run_grown hrun'
  have hfresh : Distinct boot.endpoint.mem := KeyedTable.Bounded.nil
  have hdistinct := run_distinct hall hfresh
  have hcounted := (run_grown hall).counted
  refine ⟨s,s',(boot.run_eq_partial xs).trans hrun,(hsplit ys).trans hrun',hgrown.stored,hdistinct.distinct,hdistinct.size,?_,
    ?_,?_⟩
  · have hzero : boot.endpoint.mem.insertsTotal=0 ∧ boot.endpoint.mem.storefullTotal=0 ∧
        boot.endpoint.mem.envelopes.length=0 := ⟨rfl,rfl,rfl⟩
    omega
  · exact fun hlt => Nat.le_antisymm hdistinct.size (hgrown.full hlt)
  · intro n hn hnew
    obtain ⟨pre,post,a,pkt,plain,out,session,env,hys,hpre,hrest⟩ := envelope_came hrun' hnew hn
    exact ⟨pre,post,a,pkt,plain,out,session,env,hys,(hsplit pre).trans hpre,hrest⟩

end Bolina
