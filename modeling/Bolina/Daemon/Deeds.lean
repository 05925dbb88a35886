import Bolina.Daemon.MetricsRun
import Bolina.Daemon.RenewedCert
import Bolina.Framework.PartialRun

namespace Bolina

open Codec Intent State Transport Control Noise Utf8 BigEndian

section Withdrawal

def Intent.Table.AllPending (t : Table) : Prop := ∀e∈t.entries,e.state=.Pending

/-- The entry of an id is marked and swept away: those of the other ids stay. -/
theorem withdrawn_entries {es : List Entry} {intentId : FixedBytes 16} {idx : Nat}
    (hp : ∀e∈es,e.state=.Pending) (hu : es.Pairwise Apart) (hf : es.findIdx? (Entry.pendingFor intentId)=some idx) :
    (es.modify idx (fun e => { e with state := .Rejected })).filter
        (fun e => decide (e.state=.Pending ∨ e.state=.Executing))=
      es.filter (fun e => decide (e.intentId≠intentId)) := by
  induction es generalizing idx with
  | nil => simp at hf
  | cons a es ih =>
    obtain ⟨ha,hp⟩ := List.forall_mem_cons.mp hp
    obtain ⟨hapart,hu⟩ := List.pairwise_cons.mp hu
    rw [List.findIdx?_cons] at hf
    by_cases hid : a.intentId=intentId
    · have hpend : a.pendingFor intentId=true := by simp [Entry.pendingFor,ha,hid]
      simp only [hpend,if_true,Option.some.injEq] at hf
      subst hf
      have hother : ∀b∈es,b.intentId≠intentId := fun b hb he => hapart b hb ha (hp b hb) (hid.trans he.symm)
      have hlive : es.filter (fun e => decide (e.state=.Pending ∨ e.state=.Executing))=es := by
        apply List.filter_eq_self.mpr
        intro b hb
        simp [hp b hb]
      have hkept : es.filter (fun e => decide (e.intentId≠intentId))=es := by
        apply List.filter_eq_self.mpr
        intro b hb
        simpa using hother b hb
      rw [List.modify_zero_cons,List.filter_cons_of_neg (by simp),List.filter_cons_of_neg (by simpa using hid),hlive,hkept]
    · have hpend : a.pendingFor intentId=false := by simp [Entry.pendingFor,hid]
      simp only [hpend,Bool.false_eq_true,if_false,Option.map_eq_some_iff] at hf
      obtain ⟨k,hk,rfl⟩ := hf
      rw [List.modify_succ_cons,List.filter_cons_of_pos (by simp [ha]),List.filter_cons_of_pos (by simpa using hid),
        ih hp hu hk]

theorem applyRefusal_entries {t : Table} (h : t.AllPending) (intentId : FixedBytes 16) :
    (t.applyRefusal intentId).2.entries=t.entries.filter (fun e => decide (e.intentId≠intentId)) := by
  rw [Table.applyRefusal]
  cases hm : t.matchForGrant intentId with
  | some idx => exact withdrawn_entries h t.unique hm
  | none =>
    have hnone := List.findIdx?_eq_none_iff.mp hm
    refine (List.filter_eq_self.mpr ?_).symm
    intro e he
    have hn := hnone e he
    simp only [Entry.pendingFor,h e he,true_and,decide_eq_false_iff_not] at hn
    simpa using hn

end Withdrawal

/-- What the node keeps of what it was asked and allowed to do. -/
@[ext] structure Authority where
  intents : List Entry
  senders : List SenderEntry
  certs : List (Bytes × Bytes)
  ring : EventRing
  admittedTotal : Nat
  admissionsTotal : Nat
  ledger : Option GrantLedger
  disk : Disk

def Daemon.authority (d : Daemon) (metrics : Metrics) (disk : Disk) : Authority where
  intents := d.intents.entries
  senders := d.senders.entries
  certs := d.certs
  ring := d.ring
  admittedTotal := metrics.admittedTotal
  admissionsTotal := d.wire.admissionsTotal
  ledger := d.ledger
  disk

def Controlled.authority (s : Controlled) : Authority := s.endpoint.daemon.authority s.metrics s.endpoint.disk

/-- What a step can do to the authority. An intent whose action is too long leaves no record. -/
inductive Deed where
  | nothing
  | bound (kw : Bytes × Bytes)
  | posted (entry : Entry)
  | proposed (entry : Entry) (record : Option SenderEntry)
  | withdrawn (intentId : FixedBytes 16)
  | control

namespace Deed

def tag : Deed → Option EventTag
  | .posted _ => some .IntentAdmitted
  | .proposed _ (some _) => some .IntentAdmitted
  | .withdrawn _ => some .RefusalApplied
  | .control => some .ControlApplied
  | _ => none

def entry : Deed → Option Entry
  | .posted entry => some entry
  | .proposed entry _ => some entry
  | _ => none

end Deed

def Authority.publish (a : Authority) (tag : Option EventTag) : Authority :=
  match tag with
  | none => a
  | some tag => { a with ring := a.ring.publish tag }

/-- The ledger and its file are no deed's. -/
def Authority.apply (a : Authority) (d : Deed) : Authority :=
  let a := a.publish d.tag
  match d with
  | .nothing => a
  | .bound kw => { a with certs := a.certs++[kw] }
  | .posted entry => { a with intents := a.intents++[entry],admittedTotal := a.admittedTotal+1 }
  | .proposed entry none => { a with intents := a.intents++[entry] }
  | .proposed entry (some record) =>
    { a with
      intents := a.intents++[entry]
      senders := a.senders++[record]
      admissionsTotal := a.admissionsTotal+1 }
  | .withdrawn intentId => { a with intents := a.intents.filter (fun e => decide (e.intentId≠intentId)) }
  | .control => a

/-- What an envelope can order. -/
inductive Orders (K : Crypto) (io : Io) (d : Daemon) (plain : Bytes) (now : UInt64) : Deed → Prop
  | nothing : Orders K io d plain now .nothing
  | proposed (env : Envelope) (i : Codec.Intent) (canonical : Bytes)
      (h : Proposes K d.dispatcher plain env i canonical) :
      Orders K io d plain now
        (.proposed (admittedEntry (fixed 16 i.intentId) canonical h.admissible.fits now)
          (if hl : i.action.length ≤ senderMaxAction then some (senderRecord env i hl) else none))
  | withdrawn (env : Envelope) (refusal : Refusal) (cert : Cert)
      (h : Refuses K plain (ledgerHooks io now d.certForSender) env refusal cert) :
      Orders K io d plain now (.withdrawn (fixed 16 refusal.intentId))
  | control (env : Envelope) (signed : Signed K plain env) (body : env.bodyType=bodyControl) :
      Orders K io d plain now .control

/-- The datagram opens to the plaintext on a bound session, and the gates let it through. -/
structure Delivers (S : Suite) (A : Aead) (e : Endpoint) (pkt plain : Bytes) (session : Transport.Session) : Prop where
  kind : pkt.head?=some 4
  opens : e.opens A pkt=some (session,plain)
  bound : session.bound=true
  passes : (e.gate S plain).1=true

/-- The request is a post, under the token, of an intent that is admissible. -/
structure Posts (s : Controlled) (buf : Bytes) (req : Request) (p : Posted) (canonical : Bytes) : Prop where
  parsed : parse buf=.ok req
  method : req.method=.Post
  target : req.target buf=intentsPath
  token : ∃token,s.token=some token ∧ bearerOk buf token=true
  reads : readPosted (fromUtf8Lossy (req.body buf))=some p
  admissible : Admissible s.endpoint.daemon.resolver s.endpoint.daemon.intents p.intentId p.resource canonical

/-- What a tick needs for a deed. -/
inductive Warrant (S : Suite) (A : Aead) (keys : Keys) (s : Controlled) : Tick → Deed → Prop
  | nothing (x : Tick) : Warrant S A keys s x .nothing
  | bound (x : Input) (kw : Bytes × Bytes) (h : s.endpoint.binding S A keys x=some kw) :
      Warrant S A keys s (.input x) (.bound kw)
  | posted (buf : Bytes) (now : UInt64) (req : Request) (p : Posted) (canonical : Bytes)
      (h : Posts s buf req p canonical) :
      Warrant S A keys s (.request buf now) (.posted (admittedEntry p.intentId canonical h.admissible.fits now))
  | delivered (pkt plain : Bytes) (out : Outside) (session : Transport.Session) (d : Deed)
      (h : Delivers S A s.endpoint pkt plain session)
      (orders : Orders S.toCrypto out.io s.endpoint.daemon plain out.now d) :
      Warrant S A keys s (.input (.datagram pkt out)) d

section Dispatch

variable {K : Crypto} {io : Io} {now : UInt64} {plain : Bytes} {d d' : Daemon} {disk disk' : Disk}

/-- A dispatch that ends in a control event has read a control body. -/
theorem dispatch_control {σ : Type} {t : Dispatch} {hooks : Hooks σ} {s : σ}
    (h : (t.dispatch K plain hooks now s).1=.ok .Control) : ∃env,Signed K plain env ∧ env.bodyType=bodyControl := by
  by_cases hs : ∃env,Signed K plain env
  · obtain ⟨env,hs⟩ := hs
    refine ⟨env,hs,?_⟩
    by_contra hc
    have hother : ∀o,(t.dispatch K plain hooks now s).1=.ok o → o≠.Control := by
      intro o ho he
      subst he
      rw [dispatch_signed hs] at ho
      split_ifs at ho
      · exact absurd (dispatchIntent_outcome env _ ho) (by simp)
      · rw [Dispatch.dispatchGrant] at ho
        cases hp : parseGrant env.body with
        | error e => simp [hp] at ho
        | ok grant =>
          simp only [hp] at ho
          split at ho
          · cases ho
          · split at ho
            · cases ho
            · cases ho
            · rename_i outcome _ _
              cases outcome <;> cases ho
      · rw [Dispatch.dispatchRefusal] at ho
        split at ho
        · cases ho
        · split at ho
          · cases ho
          · split at ho <;> cases ho
      all_goals cases ho
    exact hother _ h rfl
  · obtain ⟨e,-,he⟩ := @dispatch_of_not_signed σ K plain hooks now s (fun env h => hs ⟨env,h⟩)
    rw [he] at h
    cases h

/-- An envelope that executes nothing does what it orders. -/
theorem dispatchEnvelope_deed (hx : d.executed K io now plain disk=[]) (hp : d.intents.AllPending)
    (h : d.dispatchEnvelope K io now plain disk=some (d',disk')) (metrics : Metrics) :
    ∃deed,Orders K io d plain now deed ∧ d'.authority metrics disk'=(d.authority metrics disk).apply deed := by
  have hn : ∀g,¬Executes K d.dispatcher plain (ledgerHooks io now d.certForSender) now ⟨d.ledger,disk⟩ g := by
    intro g hg
    have hm := mem_executed.mpr hg
    rw [hx] at hm
    cases hm
  rw [Daemon.dispatchEnvelope] at h
  cases happens K d.dispatcher plain (ledgerHooks io now d.certForSender) now (⟨d.ledger,disk⟩ : Node) with
  | proposes env i canonical hprop =>
    refine ⟨_,.proposed env i canonical hprop,?_⟩
    obtain ⟨-,hentries⟩ := resolveAndAdmit_of_admissible now hprop.admissible
    rw [dispatch_of_proposes hprop] at h
    by_cases hl : i.action.length ≤ senderMaxAction
    · simp only [dif_pos hl] at h ⊢
      cases h
      exact Authority.ext hentries rfl rfl rfl rfl rfl rfl rfl
    · simp only [dif_neg hl] at h ⊢
      cases h
      exact Authority.ext hentries rfl rfl rfl rfl rfl rfl rfl
  | executes grant hg => exact absurd hg (hn grant)
  | refuses env refusal cert hr =>
    refine ⟨_,.withdrawn env refusal cert hr,?_⟩
    rw [dispatch_of_refuses hr] at h
    have hsame : (if d.dispatcher.intentTable.pendingEntry (fixed 16 refusal.intentId)=none then (⟨d.ledger,disk⟩ : Node)
        else (ledgerHooks io now d.certForSender).onRejected refusal.intentId ⟨d.ledger,disk⟩)=⟨d.ledger,disk⟩ :=
      ite_self _
    rw [hsame] at h
    cases h
    exact Authority.ext (applyRefusal_entries hp _) rfl rfl rfl rfl rfl rfl rfl
  | idle hprop hexec href =>
    obtain ⟨res,hd,ho⟩ := dispatch_of_idle hprop hexec href
    have hcontrol := @dispatch_control K now plain _ d.dispatcher (ledgerHooks io now d.certForSender)
      (⟨d.ledger,disk⟩ : Node)
    rw [hd] at h hcontrol
    cases res with
    | error a =>
      cases a with
      | panic => cases h
      | err e =>
        cases h
        exact ⟨_,.nothing,rfl⟩
    | ok o =>
      cases h
      rcases ho o rfl with rfl|rfl|rfl
      · exact ⟨_,.nothing,rfl⟩
      · exact ⟨_,.nothing,rfl⟩
      · obtain ⟨env,hs,hb⟩ := hcontrol rfl
        exact ⟨_,.control env hs hb,rfl⟩

end Dispatch

def Endpoint.authority (e : Endpoint) (metrics : Metrics) : Authority := e.daemon.authority metrics e.disk

/-- The daemon with the counters of its control plane, without its sessions. -/
def Controlled.process (s : Controlled) : Process := ⟨s.endpoint.daemon,s.metrics,s.endpoint.disk⟩

/-- The peers' tables agree, every certificate was verified, and every intent is pending. -/
structure Controlled.Sound (S : Suite) (keys : Keys) (s : Controlled) : Prop where
  tables : InStep s.endpoint.tables
  process : s.process.Sound S.toCrypto keys.caPubs
  pending : s.endpoint.daemon.intents.AllPending

section Envelope

variable {S : Suite} {A : Aead} {keys : Keys} {e e' : Endpoint} {plain : Bytes} {io : Io} {now : UInt64}

/-- The gates read nothing of the sessions. -/
theorem gate_sessions (sessions : SessionTable) :
    { e with sessions }.gate S plain=((e.gate S plain).1,{ (e.gate S plain).2 with sessions }) := by
  rw [Endpoint.gate,Endpoint.gate]
  cases parseEnvelope plain with
  | error pe => rfl
  | ok env =>
    dsimp only
    by_cases hw : env.sender.length≠32 ∨ env.channelId.length≠32
    · rw [if_pos hw,if_pos hw]
      rfl
    rw [if_neg hw,if_neg hw]
    cases verifyEnvelope S.toCrypto env with
    | some ve => rfl
    | none =>
      dsimp only
      by_cases hc : env.parents.length≠env.parentCount.toNat*32
      · rw [if_pos hc,if_pos hc]
        rfl
      rw [if_neg hc,if_neg hc]
      cases e.mem.findEnvelope (fixed 32 env.sender) (fixed 32 env.channelId) env.seq with
      | some existing =>
        dsimp only
        by_cases he : existing=S.blake2s plain
        · rw [if_pos he,if_pos he]
        · rw [if_neg he,if_neg he]
          rfl
      | none =>
        dsimp only
        cases e.mem.verifyEnvelopeAdmission (S.blake2s plain) (fixed 32 env.sender) (fixed 32 env.channelId) env.seq
            (chunks32 env.parents) with
        | mk res mem => cases res <;> rfl

/-- The gates leave the authority. -/
theorem gate_authority (metrics : Metrics) : (e.gate S plain).2.authority metrics=e.authority metrics := by
  have hg := gated S e plain
  generalize e.gate S plain=r at hg ⊢
  cases hg <;> rfl

theorem gate_daemon (h : (e.gate S plain).1=true) :
    (e.gate S plain).2.daemon=e.daemon ∧ (e.gate S plain).2.disk=e.disk := by
  have hg := gated S e plain
  generalize e.gate S plain=r at hg h ⊢
  cases hg with
  | passes => exact ⟨rfl,rfl⟩
  | _ => cases h

theorem handleEnvelope_deed (hx : e.daemon.executed S.toCrypto io now plain e.disk=[])
    (hp : e.daemon.intents.AllPending) (h : e.handleEnvelope S io now plain=some e') (metrics : Metrics) :
    ∃deed,(deed=.nothing ∨ (e.gate S plain).1=true ∧ Orders S.toCrypto io e.daemon plain now deed) ∧
      e'.authority metrics=(e.authority metrics).apply deed := by
  rw [Endpoint.handleEnvelope] at h
  have hsame := @gate_authority S e plain metrics
  have hdaemon := @gate_daemon S e plain
  cases hg : e.gate S plain with
  | mk through e₁ =>
    rw [hg] at h hsame hdaemon
    cases through with
    | false =>
      cases h
      exact ⟨.nothing,.inl rfl,hsame⟩
    | true =>
      obtain ⟨hd,hdisk⟩ := hdaemon rfl
      dsimp only at hd hdisk
      obtain ⟨⟨d,disk⟩,hdis,heq⟩ := Option.map_eq_some_iff.mp h
      cases heq
      rw [hd,hdisk] at hdis
      obtain ⟨deed,horders,hdeed⟩ := dispatchEnvelope_deed hx hp hdis metrics
      exact ⟨deed,.inr ⟨rfl,horders⟩,hdeed⟩

end Envelope

section Inputs

variable {S : Suite} {A : Aead} {keys : Keys} {e e' : Endpoint} {out : Outside} {pkt : Bytes} {acts : List Act}

theorem setBound_disk (e : Endpoint) (idx : UInt32) : (e.setBound idx).disk=e.disk := by
  rw [Endpoint.setBound]
  cases e.sessions.lookup idx <;> rfl

theorem releaseStale_frame (now : UInt64) (e : Endpoint) :
    (e.releaseStaleSlots now).2.disk=e.disk ∧ (e.releaseStaleSlots now).2.mem=e.mem := by
  have hfold : ∀(freed : List Handshake.Slot) (e : Endpoint),
      (freed.foldl Endpoint.releaseHsSlot e).disk=e.disk ∧ (freed.foldl Endpoint.releaseHsSlot e).mem=e.mem := by
    intro freed
    induction freed with
    | nil => exact fun _ => ⟨rfl,rfl⟩
    | cons i freed ih => exact fun e => ih _
  exact hfold _ { e with hs := (e.hs.releaseStale now Handshake.tHsIdleMs).2 }

theorem releaseStale_authority (now : UInt64) (e : Endpoint) (metrics : Metrics) :
    (e.releaseStaleSlots now).2.authority metrics=e.authority metrics := by
  rw [Endpoint.authority,releaseStale_daemon,(releaseStale_frame now e).1,Endpoint.authority]

theorem handleHandshake_frame (h : e.handleHandshake S keys out pkt=some (e',acts)) : e'.disk=e.disk ∧ e'.mem=e.mem := by
  rw [Endpoint.handleHandshake] at h
  split at h
  · cases h
  · cases h
    exact ⟨rfl,rfl⟩
  · cases h
    exact ⟨rfl,rfl⟩
  · rename_i slot hs sent _
    dsimp only at h
    generalize hs.slots slot=o at h
    cases o with
    | none =>
      cases h
      exact ⟨rfl,rfl⟩
    | some s =>
      dsimp only at h
      generalize e.sessions.admit (UInt32.ofNat slot) 0 s.sendKey s.recvKey s.handshakeHash out.later=r at h
      obtain ⟨res,sessions⟩ := r
      cases res <;> (cases h; exact ⟨rfl,rfl⟩)

theorem handleHandshake_authority (metrics : Metrics) (h : e.handleHandshake S keys out pkt=some (e',acts)) :
    e'.authority metrics=e.authority metrics := by
  obtain ⟨hfull,hroom⟩ := handleHandshake_daemon h
  rw [Endpoint.authority,(handleHandshake_frame h).1,Endpoint.authority]
  by_cases hm : MeetsFullTable e pkt
  · rw [hfull hm]
    rfl
  · rw [hroom hm]

/-- A datagram of a session binds a certificate, orders what its envelope says, or does nothing. -/
theorem handleTransport_deed {s : Controlled} (hk : pkt.head?=some 4)
    (hx : ∀io now plain,s.endpoint.daemon.executed S.toCrypto io now plain s.endpoint.disk=[])
    (hp : s.endpoint.daemon.intents.AllPending) (h : s.endpoint.handleTransport S A keys out pkt=some (e',acts)) :
    ∃deed,Warrant S A keys s (.input (.datagram pkt out)) deed ∧ e'.authority s.metrics=s.authority.apply deed := by
  have hbinding := Endpoint.binding.eq_def S A keys s.endpoint (.datagram pkt out)
  dsimp only at hbinding
  rw [if_pos hk] at hbinding
  cases handleTransport_ends h with
  | ignored => exact ⟨_,.nothing _,rfl⟩
  | closed => exact ⟨_,.nothing _,rfl⟩
  | envelope session recv plain _ opens found key bound handled =>
    let sessions := s.endpoint.sessions.put (be32 (slice pkt 4 4)) { session with recv }
    have hgate := @gate_sessions S s.endpoint plain sessions
    obtain ⟨deed,hd,ha⟩ := @handleEnvelope_deed S { s.endpoint with sessions } e' plain out.io out.now
      (hx out.io out.now plain) hp handled s.metrics
    refine ⟨deed,?_,ha⟩
    rcases hd with rfl|⟨hpass,horders⟩
    · exact .nothing _
    · rw [hgate] at hpass
      exact .delivered pkt plain out session deed ⟨hk,opens,bound,hpass⟩ horders
  | binding session recv plain _ _ opens found key unbound ends =>
    rw [opens,Option.bind_some,if_neg (by simp [unbound])] at hbinding
    cases ends with
    | refused => exact ⟨_,.nothing _,rfl⟩
    | silent => exact ⟨_,.nothing _,rfl⟩
    | binds cert i peer sig parses named known ok stored =>
      refine ⟨_,.bound _ _ (hbinding.trans stored),?_⟩
      rw [Endpoint.authority]
      dsimp only
      rw [setBound_disk,setBound_daemon]
      rfl

theorem input_deed {s : Controlled} {x : Input} (hx : ∀io now plain,s.endpoint.daemon.executed S.toCrypto io now plain
      s.endpoint.disk=[]) (hp : s.endpoint.daemon.intents.AllPending) (h : s.endpoint.step S A keys x=some (e',acts)) :
    ∃deed,Warrant S A keys s (.input x) deed ∧ e'.authority s.metrics=s.authority.apply deed := by
  cases x with
  | sweep now =>
    cases h
    exact ⟨_,.nothing _,releaseStale_authority now s.endpoint s.metrics⟩
  | datagram pkt out =>
    by_cases h4 : pkt.head?=some 4
    · rw [Endpoint.step,handleDatagram_transport h4] at h
      exact handleTransport_deed h4 hx hp h
    by_cases h1 : pkt.head?=some 1
    · rw [Endpoint.step,handleDatagram_first h1] at h
      exact ⟨_,.nothing _,handleHandshake_authority s.metrics h⟩
    refine ⟨_,.nothing _,?_⟩
    cases pkt with
    | nil =>
      cases h
      rfl
    | cons b rest =>
      rw [Endpoint.step,Endpoint.handleDatagram.eq_def] at h
      dsimp only at h
      rw [if_neg (fun hb => h1 (congrArg some hb)),if_neg (fun hb => h4 (congrArg some hb))] at h
      cases h
      rfl

end Inputs

section Requests

variable {S : Suite} {A : Aead} {keys : Keys} {s : Controlled} {buf : Bytes} {now : UInt64}

/-- The one route that changes anything. -/
theorem route_post {req : Request} {ctx : RouteCtx} (hm : req.method=.Post) (ht : req.target buf=intentsPath) :
    route req buf ctx=routePost (req.body buf) ctx := by
  have hg : ¬(Method.Post=.Get ∧ intentsPath=healthzPath) := by simp
  rw [route.eq_def]
  dsimp only
  rw [hm,ht,if_neg hg,if_pos ⟨rfl,rfl⟩]

theorem route_other {req : Request} {ctx : RouteCtx} (h : ¬(req.method=.Post ∧ req.target buf=intentsPath)) :
    (route req buf ctx).2=ctx := by
  rw [route.eq_def]
  dsimp only
  rw [if_neg h]
  split_ifs <;> rfl

/-- A request posts an intent that is admissible, or leaves the intents, the ring and the counter. -/
theorem answer_deed (s : Controlled) (buf : Bytes) (now : UInt64) :
    ∃deed,Warrant S A keys s (.request buf now) deed ∧ (s.answer now buf).2.authority=s.authority.apply deed := by
  have hsame : (routeHttp buf (s.count.ctx now)).2.intents=s.endpoint.daemon.intents →
      (routeHttp buf (s.count.ctx now)).2.ring=s.endpoint.daemon.ring →
      (routeHttp buf (s.count.ctx now)).2.metrics=s.metrics →
      ∃deed,Warrant S A keys s (.request buf now) deed ∧ (s.answer now buf).2.authority=s.authority.apply deed := by
    intro hi hr hm
    refine ⟨_,.nothing _,?_⟩
    exact Authority.ext (congrArg Table.entries hi) rfl rfl hr (congrArg Metrics.admittedTotal hm) rfl rfl rfl
  rw [routeHttp.eq_def] at hsame
  cases hp : parse buf with
  | error e =>
    rw [hp] at hsame
    exact hsame rfl rfl rfl
  | ok req =>
    rw [hp] at hsame
    dsimp only at hsame
    have hctx : (s.count.ctx now).token=s.token := rfl
    rw [hctx] at hsame
    cases ht : s.token with
    | none =>
      rw [ht] at hsame
      dsimp only at hsame
      by_cases hh : req.target buf≠healthzPath
      · rw [if_pos hh] at hsame
        exact hsame rfl rfl rfl
      · have hpost : ¬(req.method=.Post ∧ req.target buf=intentsPath) := by
          intro h
          rw [not_not.mp hh] at h
          exact absurd h.2 (by decide)
        rw [if_neg hh,route_other hpost] at hsame
        exact hsame rfl rfl rfl
    | some token =>
      rw [ht] at hsame
      dsimp only at hsame
      by_cases hb : bearerOk buf token=false
      · rw [if_pos hb] at hsame
        exact hsame rfl rfl rfl
      rw [if_neg hb] at hsame
      by_cases hpost : req.method=.Post ∧ req.target buf=intentsPath
      · obtain ⟨hm,htarget⟩ := hpost
        rw [route_post hm htarget] at hsame
        have hposting := postIntent_posting (fromUtf8Lossy (req.body buf)) s.endpoint.daemon.resolver
          s.endpoint.daemon.intents s.metrics s.endpoint.daemon.ring now
        have hanswer : (s.answer now buf).2=s.count.absorb (routePost (req.body buf) (s.count.ctx now)).2 := by
          rw [Controlled.answer,routeHttp.eq_def,hp]
          dsimp only
          rw [hctx,ht]
          dsimp only
          rw [if_neg hb,route_post hm htarget]
        rw [routePost] at hsame hanswer
        dsimp only [Controlled.ctx,Controlled.count] at hsame hanswer
        generalize postIntent (fromUtf8Lossy (req.body buf)) s.endpoint.daemon.resolver s.endpoint.daemon.intents
          s.metrics s.endpoint.daemon.ring now=r at hposting hsame hanswer
        cases hposting with
        | accepted p canonical hread ha t' hentries =>
          refine ⟨_,.posted buf now req p canonical ⟨hp,hm,htarget,⟨token,ht,Bool.eq_true_of_not_eq_false hb⟩,hread,ha⟩,?_⟩
          rw [hanswer]
          exact Authority.ext hentries rfl rfl rfl rfl rfl rfl rfl
        | idempotent p canonical hread hr hfits hdup => exact hsame rfl rfl rfl
        | refused e hnew => exact hsame rfl rfl rfl
      · rw [route_other hpost] at hsame
        exact hsame rfl rfl rfl

end Requests

section Soundness

variable {S : Suite} {A : Aead} {keys : Keys} {s s' : Controlled} {x : Tick}

theorem Controlled.Sound.executed (h : s.Sound S keys) (io : Io) (now : UInt64) (plain : Bytes) :
    s.endpoint.daemon.executed S.toCrypto io now plain s.endpoint.disk=[] :=
  h.process.executed (.envelope io plain now)

/-- Every step is one deed, under its warrant. -/
theorem step_deed (hs : s.Sound S keys) (h : s.step S A keys x=some s') :
    ∃deed,Warrant S A keys s x deed ∧ s'.authority=s.authority.apply deed := by
  cases x with
  | input y =>
    obtain ⟨⟨e',acts⟩,he,heq⟩ := Option.map_eq_some_iff.mp h
    cases heq
    exact input_deed hs.executed hs.pending he
  | request buf now =>
    cases h
    exact answer_deed s buf now

/-- The certificate in a binding message, and the checks that it passed. -/
structure Attests (S : Suite) (A : Aead) (keys : Keys) (e : Endpoint) (y : Input) (kw : Bytes × Bytes) (cert : Cert)
    (pkt plain sig : Bytes) (out : Outside) (session : Transport.Session) (peer : Key) : Prop where
  input : y=.datagram pkt out
  opens : e.opens A pkt=some (session,plain)
  unbound : session.bound=false
  carries : kw.2=boundCert plain
  parses : parseCert kw.2=.ok cert
  key : cert.sigPubkey=kw.1
  ok : bindSession S.toCrypto (certView cert) sig session.handshakeHash.toList peer.toList keys.caPubs out.now=.ok ()

theorem binding_attests {e : Endpoint} {y : Input} {kw : Bytes × Bytes} (h : e.binding S A keys y=some kw) :
    ∃cert pkt plain sig out session peer,Attests S A keys e y kw cert pkt plain sig out session peer := by
  cases y with
  | sweep now => cases h
  | datagram pkt out =>
    rw [Endpoint.binding] at h
    split at h
    · obtain ⟨⟨session,plain⟩,hopens,hsp⟩ := Option.bind_eq_some_iff.mp h
      dsimp only at hsp
      split at hsp
      · cases hsp
      · rename_i hunbound
        rw [Endpoint.stores] at hsp
        split at hsp
        · cases hsp
        · cases hp : parseCert (boundCert plain) with
          | error e =>
            rw [hp] at hsp
            cases hsp
          | ok cert =>
            rw [hp] at hsp
            dsimp only at hsp
            split at hsp
            · rename_i hi
              cases hk : e.peerStatic ⟨session.localIndex.toNat,hi⟩ with
              | none =>
                rw [hk] at hsp
                cases hsp
              | some peer =>
                rw [hk] at hsp
                dsimp only at hsp
                split at hsp
                · cases hsp
                · rename_i hbind
                  cases hsp
                  exact ⟨cert,pkt,plain,_,out,session,peer,rfl,hopens,Bool.eq_false_of_not_eq_true hunbound,rfl,hp,rfl,hbind⟩
            · cases hsp
    · cases h

/-- What is bound has been verified, and so carries one role. -/
theorem binding_binds {y : Input} {kw : Bytes × Bytes} (h : s.endpoint.binding S A keys y=some kw) :
    ∃x,Binds S.toCrypto keys.caPubs kw x := by
  obtain ⟨cert,pkt,plain,sig,out,session,peer,ha⟩ := binding_attests h
  have hparse := ha.parses
  rw [ha.carries] at hparse
  exact ⟨.binding plain [] none out.now,cert,ha.parses,ha.key.symm,hparse,validateCert_of_bound _ _ _ _ _ _ _ ha.ok⟩

theorem Warrant.certs {deed : Deed} (h : Warrant S A keys s x deed)
    (hs : ∀kw∈s.endpoint.daemon.certs,∃y,Binds S.toCrypto keys.caPubs kw y) :
    ∀kw∈(s.authority.apply deed).certs,∃y,Binds S.toCrypto keys.caPubs kw y := by
  intro kw hkw
  cases h with
  | nothing => exact hs kw hkw
  | bound y kw' hb =>
    rcases List.mem_append.mp hkw with hold|hnew
    · exact hs kw hold
    · rw [List.mem_singleton.mp hnew]
      exact binding_binds hb
  | posted => exact hs kw hkw
  | delivered pkt plain out session deed hd horders =>
    cases horders with
    | proposed env i canonical hprop =>
      by_cases hl : i.action.length ≤ senderMaxAction
      · rw [dif_pos hl] at hkw
        exact hs kw hkw
      · rw [dif_neg hl] at hkw
        exact hs kw hkw
    | _ => exact hs kw hkw

/-- A deed adds a pending intent where there is a place, or takes intents away. -/
theorem Warrant.intents {deed : Deed} (h : Warrant S A keys s x deed) (hs : s.Sound S keys) :
    (∀e∈(s.authority.apply deed).intents,e.state=.Pending) ∧ (s.authority.apply deed).intents.length ≤ maxPending := by
  have hfits : s.endpoint.daemon.intents.entries.length ≤ maxPending := hs.process.fits
  have hadd : ∀(entry : Entry),entry.state=.Pending → s.endpoint.daemon.intents.entries.length < maxPending →
      (∀e∈s.endpoint.daemon.intents.entries++[entry],e.state=.Pending) ∧
        (s.endpoint.daemon.intents.entries++[entry]).length ≤ maxPending := by
    intro entry he hroom
    refine ⟨?_,by rw [List.length_append]; exact hroom⟩
    intro e hm
    rcases List.mem_append.mp hm with hold|hnew
    · exact hs.pending e hold
    · rw [List.mem_singleton.mp hnew]
      exact he
  cases h with
  | nothing => exact ⟨hs.pending,hfits⟩
  | bound => exact ⟨hs.pending,hfits⟩
  | posted buf now req p canonical hp => exact hadd _ rfl hp.admissible.takes.room
  | delivered pkt plain out session deed hd horders =>
    cases horders with
    | nothing => exact ⟨hs.pending,hfits⟩
    | proposed env i canonical hprop =>
      have hentry := hadd (admittedEntry (fixed 16 i.intentId) canonical hprop.admissible.fits out.now) rfl
        hprop.admissible.takes.room
      by_cases hl : i.action.length ≤ senderMaxAction
      · rw [dif_pos hl]
        exact hentry
      · rw [dif_neg hl]
        exact hentry
    | withdrawn env refusal cert hr =>
      refine ⟨?_,?_⟩
      · intro e he
        exact hs.pending e (List.mem_of_mem_filter he)
      · exact (List.length_filter_le _ _).trans hfits
    | control => exact ⟨hs.pending,hfits⟩

theorem Controlled.Sound.next (hs : s.Sound S keys) (h : s.step S A keys x=some s') : s'.Sound S keys := by
  obtain ⟨deed,hw,hdeed⟩ := step_deed hs h
  obtain ⟨hpending,hfits⟩ := hw.intents hs
  have hcerts := hw.certs hs.process.bound
  rw [← hdeed] at hpending hfits hcerts
  refine ⟨?_,⟨hfits,hcerts⟩,hpending⟩
  cases x with
  | input y =>
    obtain ⟨⟨e',acts⟩,he,heq⟩ := Option.map_eq_some_iff.mp h
    cases heq
    exact (step_effect hs.tables he).inStep hs.tables
  | request buf now =>
    cases h
    exact hs.tables

theorem sound_boot (S : Suite) (keys : Keys) (resolver : Resolver) (ledger : Option GrantLedger) (disk : Disk)
    (token : Option (FixedBytes 64)) : (Controlled.boot S keys resolver ledger disk token).Sound S keys where
  tables := inStep_boot S keys resolver ledger disk
  process := boot_sound keys.sigPub.toList resolver ledger disk
  pending _ h := by cases h

section Returns

variable {e : Endpoint} {out : Outside} {pkt : Bytes}

theorem handleHandshake_goes (e : Endpoint) (out : Outside) (pkt : Bytes) : ∃r,e.handleHandshake S keys out pkt=some r := by
  obtain ⟨res,hs,sent,hp,-⟩ := Handshake.processed S e.hs pkt keys.secretStatic keys.sigPub out.ephSecret out.send
    out.now
  rw [Endpoint.handleHandshake,hp]
  cases res with
  | error err => cases err <;> exact ⟨_,rfl⟩
  | ok slot =>
    dsimp only
    cases hs.slots slot with
    | none => exact ⟨_,rfl⟩
    | some s =>
      dsimp only
      generalize e.sessions.admit (UInt32.ofNat slot) 0 s.sendKey s.recvKey s.handshakeHash out.later=r
      obtain ⟨res,sessions⟩ := r
      cases res <;> exact ⟨_,rfl⟩

theorem handleBinding_goes {now : UInt64} {plain : Bytes} {hash : Key} {slot idx : UInt32} (e : Endpoint)
    (h : slot.toNat < Handshake.maxSessions) : ∃r,e.handleBinding S keys now plain hash slot idx=some r := by
  rw [Endpoint.handleBinding]
  split_ifs
  · exact ⟨_,rfl⟩
  · dsimp only
    split_ifs
    · exact ⟨_,rfl⟩
    · split
      · exact ⟨_,rfl⟩
      · split
        · exact ⟨_,rfl⟩
        · split <;> exact ⟨_,rfl⟩

theorem handleEnvelope_goes {io : Io} {now : UInt64} {plain : Bytes} (e : Endpoint)
    (h : ∃r,e.daemon.dispatchEnvelope S.toCrypto io now plain e.disk=some r) :
    ∃e',e.handleEnvelope S io now plain=some e' := by
  rw [Endpoint.handleEnvelope]
  have hdaemon := @gate_daemon S e plain
  cases hg : e.gate S plain with
  | mk through e₁ =>
    cases through with
    | false => exact ⟨_,rfl⟩
    | true =>
      rw [hg] at hdaemon
      obtain ⟨hd,hdisk⟩ := hdaemon rfl
      obtain ⟨r,hr⟩ := h
      dsimp only at hd hdisk ⊢
      rw [hd,hdisk,hr]
      exact ⟨_,rfl⟩

theorem Controlled.Sound.dispatches (hs : s.Sound S keys) (io : Io) (now : UInt64) (plain : Bytes) :
    ∃r,s.endpoint.daemon.dispatchEnvelope S.toCrypto io now plain s.endpoint.disk=some r := by
  obtain ⟨p,hp,-⟩ := hs.process.step (.envelope io plain now)
  obtain ⟨r,hr,-⟩ := Option.map_eq_some_iff.mp hp
  exact ⟨r,hr⟩

theorem handleTransport_goes (hs : s.Sound S keys) (out : Outside) (pkt : Bytes) :
    ∃r,s.endpoint.handleTransport S A keys out pkt=some r := by
  rw [Endpoint.handleTransport]
  split_ifs
  · exact ⟨_,rfl⟩
  · dsimp only
    cases hf : s.endpoint.sessions.lookup (be32 (slice pkt 4 4)) with
    | none => exact ⟨_,rfl⟩
    | some session =>
      obtain ⟨res,recv,ho,-⟩ := open_window A session pkt ptBuf (headerCounter pkt)
      obtain ⟨hidx,hrange⟩ := hs.tables.within _ session hf
      dsimp only
      rw [ho]
      cases res with
      | error err => exact ⟨_,rfl⟩
      | ok r =>
        obtain ⟨n,pt⟩ := r
        dsimp only
        split_ifs
        · obtain ⟨e',he⟩ := @handleEnvelope_goes S out.io out.now (pt.take n)
            { s.endpoint with sessions := s.endpoint.sessions.put (be32 (slice pkt 4 4)) { session with recv } }
            (hs.dispatches out.io out.now (pt.take n))
          exact ⟨(e',_),Option.map_eq_some_iff.mpr ⟨e',he,rfl⟩⟩
        · obtain ⟨ea,he⟩ := @handleBinding_goes S keys out.now (pt.take n) session.handshakeHash session.localIndex
            (be32 (slice pkt 4 4))
            { s.endpoint with sessions := s.endpoint.sessions.put (be32 (slice pkt 4 4)) { session with recv } }
            (by rwa [hidx])
          exact ⟨_,Option.map_eq_some_iff.mpr ⟨ea,he,rfl⟩⟩

/-- Nothing that comes in ends a sound node. -/
theorem Controlled.Sound.step (A : Aead) (hs : s.Sound S keys) (x : Tick) :
    ∃s',s.step S A keys x=some s' ∧ s'.Sound S keys := by
  have hgoes : ∃s',s.step S A keys x=some s' := by
    cases x with
    | request buf now => exact ⟨_,rfl⟩
    | input y =>
      have hstep : ∃r,s.endpoint.step S A keys y=some r := by
        cases y with
        | sweep now => exact ⟨_,rfl⟩
        | datagram pkt out =>
          cases pkt with
          | nil => exact ⟨_,rfl⟩
          | cons b rest =>
            rw [Endpoint.step,Endpoint.handleDatagram.eq_def]
            dsimp only
            split_ifs
            · exact handleHandshake_goes s.endpoint out (b::rest)
            · exact handleTransport_goes hs out (b::rest)
            · exact ⟨_,rfl⟩
      obtain ⟨r,hr⟩ := hstep
      exact ⟨_,Option.map_eq_some_iff.mpr ⟨r,hr,rfl⟩⟩
  obtain ⟨s',h⟩ := hgoes
  exact ⟨s',h,hs.next h⟩

end Returns

end Soundness

end Bolina
