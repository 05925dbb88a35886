import Bolina.Daemon.Envelopes
import Bolina.Daemon.Service

namespace Bolina

open Codec Intent State Transport Control Noise GuardedRun BigEndian
open Handshake (Slot HandshakeError processDatagram)

def Control.WireCounters.rejectSum (w : WireCounters) : Nat := w.rejects.toList.sum

/-- The total of the rejections is the sum of the classes. -/
def Daemon.Accounted (d : Daemon) : Prop := d.rejectedTotal=d.wire.rejectSum

/-- Both counts have grown by the same amount, at most one. -/
def GrewAlike (d d' : Daemon) : Prop :=
  ∃n≤1,d'.rejectedTotal=d.rejectedTotal+n ∧ d'.wire.rejectSum=d.wire.rejectSum+n

section Counters

theorem sum_set_succ (l : List Nat) (i : Nat) (h : i < l.length) : (l.set i (l.get ⟨i,h⟩+1)).sum=l.sum+1 := by
  induction l generalizing i with
  | nil => exact absurd h (Nat.not_lt_zero i)
  | cons a l ih =>
    cases i with
    | zero =>
      simp only [List.set_cons_zero,List.sum_cons,List.get]
      omega
    | succ i =>
      have hi : i < l.length := Nat.lt_of_succ_lt_succ h
      simp only [List.set_cons_succ,List.sum_cons,List.get]
      rw [ih i hi]
      omega

theorem bump_rejectSum (w : WireCounters) (c : WireRejectClass) : (w.bump c).rejectSum=w.rejectSum+1 := by
  have hi : c.index < w.rejects.toList.length := by
    rw [List.Vector.toList_length]
    exact c.index_lt
  exact sum_set_succ w.rejects.toList c.index hi

theorem GrewAlike.refl (d : Daemon) : GrewAlike d d := ⟨0,Nat.zero_le 1,rfl,rfl⟩

theorem grewAlike_of_eq {d d' : Daemon} (ht : d'.rejectedTotal=d.rejectedTotal) (hw : d'.wire.rejects=d.wire.rejects) :
    GrewAlike d d' := by
  refine ⟨0,Nat.zero_le 1,ht,?_⟩
  rw [WireCounters.rejectSum,hw]
  rfl

theorem grewAlike_reject (e : Endpoint) (c : WireRejectClass) : GrewAlike e.daemon (e.reject c).daemon :=
  ⟨1,Nat.le_refl 1,rfl,bump_rejectSum _ _⟩

end Counters

section Steps

variable {S : Suite} {A : Aead} {keys : Keys}

theorem gate_grewAlike (e : Endpoint) (plain : Bytes) :
    ((e.gate S plain).1=true → (e.gate S plain).2.daemon=e.daemon) ∧ GrewAlike e.daemon (e.gate S plain).2.daemon := by
  have hg := gated S e plain
  generalize e.gate S plain=r at hg ⊢
  cases hg with
  | unsealed c h => exact ⟨fun he => Bool.noConfusion he,grewAlike_reject e c⟩
  | duplicate env h found => exact ⟨fun _ => rfl,GrewAlike.refl _⟩
  | diverges env existing h found other => exact ⟨fun he => Bool.noConfusion he,grewAlike_reject e _⟩
  | refused env ve mem h new answer => exact ⟨fun he => Bool.noConfusion he,grewAlike_reject { e with mem } _⟩
  | passes env mem h new answer => exact ⟨fun _ => rfl,GrewAlike.refl _⟩

theorem dispatchEnvelope_grewAlike {K : Crypto} {io : Io} {now : UInt64} {plain : Bytes} {d d' : Daemon}
    {disk disk' : Disk} (h : d.dispatchEnvelope K io now plain disk=some (d',disk')) : GrewAlike d d' := by
  rw [Daemon.dispatchEnvelope] at h
  generalize d.dispatcher.dispatch K plain (ledgerHooks io now d.certForSender) now ⟨d.ledger,disk⟩=r at h
  obtain ⟨res,t,n⟩ := r
  cases res with
  | error a =>
    cases a with
    | panic => cases h
    | err e =>
      cases h
      exact ⟨1,Nat.le_refl 1,rfl,bump_rejectSum _ _⟩
  | ok outcome =>
    cases h
    cases outcome <;> exact grewAlike_of_eq rfl rfl

theorem handleEnvelope_grewAlike {io : Io} {now : UInt64} {plain : Bytes} {e e' : Endpoint}
    (h : e.handleEnvelope S io now plain=some e') : GrewAlike e.daemon e'.daemon := by
  rw [Endpoint.handleEnvelope] at h
  obtain ⟨hpass,hgate⟩ := @gate_grewAlike S e plain
  generalize e.gate S plain=r at h hpass hgate
  obtain ⟨through,e₁⟩ := r
  cases through with
  | false =>
    cases h
    exact hgate
  | true =>
    obtain ⟨⟨d,disk⟩,hd,heq⟩ := Option.map_eq_some_iff.mp h
    cases heq
    have hsame : e₁.daemon=e.daemon := hpass rfl
    exact hsame ▸ dispatchEnvelope_grewAlike hd

theorem bindingEnds_grewAlike {now : UInt64} {plain : Bytes} {hash : Key} {slot idx : UInt32} {e e' : Endpoint}
    {acts : List Act} (h : BindingEnds S keys now plain hash slot idx e e' acts) : GrewAlike e.daemon e'.daemon := by
  cases h with
  | refused => exact grewAlike_reject e _
  | silent => exact GrewAlike.refl _
  | binds => exact grewAlike_of_eq (by rw [setBound_daemon]) (by rw [setBound_daemon])

theorem handleTransport_grewAlike {out : Outside} {pkt : Bytes} {e e' : Endpoint} {acts : List Act}
    (h : e.handleTransport S A keys out pkt=some (e',acts)) : GrewAlike e.daemon e'.daemon := by
  cases handleTransport_ends h with
  | ignored => exact GrewAlike.refl _
  | closed s recv none found key =>
    exact grewAlike_reject { e with sessions := e.sessions.put (be32 (slice pkt 4 4)) { s with recv } } .Transport
  | envelope s recv plain _ opens found key bound handled =>
    have hg := handleEnvelope_grewAlike handled
    exact hg
  | binding s recv plain _ _ opens found key unbound ends =>
    have hg := bindingEnds_grewAlike ends
    exact hg

/-- A first message at a full table moves the sum alone; any other moves neither count. -/
theorem handleHandshake_counts {out : Outside} {pkt : Bytes} {e e' : Endpoint} {acts : List Act}
    (h : e.handleHandshake S keys out pkt=some (e',acts)) :
    (MeetsFullTable e pkt → e'.daemon.rejectedTotal=e.daemon.rejectedTotal ∧
      e'.daemon.wire.rejectSum=e.daemon.wire.rejectSum+1) ∧
    (¬MeetsFullTable e pkt → GrewAlike e.daemon e'.daemon) := by
  obtain ⟨hfull,hroom⟩ := handleHandshake_daemon h
  constructor
  · intro hm
    rw [hfull hm]
    exact ⟨rfl,bump_rejectSum _ _⟩
  · intro hm
    rw [hroom hm]
    exact GrewAlike.refl _

theorem handleDatagram_counts {out : Outside} {pkt : Bytes} {e e' : Endpoint} {acts : List Act}
    (h : e.handleDatagram S A keys out pkt=some (e',acts)) :
    (MeetsFullTable e pkt → e'.daemon.rejectedTotal=e.daemon.rejectedTotal ∧
      e'.daemon.wire.rejectSum=e.daemon.wire.rejectSum+1) ∧
    (¬MeetsFullTable e pkt → GrewAlike e.daemon e'.daemon) := by
  have hother : pkt.head?≠some 1 → GrewAlike e.daemon e'.daemon →
      (MeetsFullTable e pkt → e'.daemon.rejectedTotal=e.daemon.rejectedTotal ∧
        e'.daemon.wire.rejectSum=e.daemon.wire.rejectSum+1) ∧
      (¬MeetsFullTable e pkt → GrewAlike e.daemon e'.daemon) :=
    fun hk hg => ⟨fun hm => absurd hm.2.1 hk,fun _ => hg⟩
  cases pkt with
  | nil =>
    cases h
    exact hother (by simp) (GrewAlike.refl _)
  | cons b rest =>
    rw [Endpoint.handleDatagram.eq_def] at h
    dsimp only at h
    by_cases h1 : b=1
    · rw [if_pos h1] at h
      exact handleHandshake_counts h
    rw [if_neg h1] at h
    have hk : (b::rest).head?≠some 1 := fun he => h1 (Option.some.inj he)
    by_cases h4 : b=4
    · rw [if_pos h4] at h
      exact hother hk (handleTransport_grewAlike h)
    · rw [if_neg h4] at h
      cases h
      exact hother hk (GrewAlike.refl _)

/-- No other event moves either count. -/
theorem step_counts_other {s s' : Service} {x : Event} (hx : ∀pkt out,x≠.input (.datagram pkt out))
    (h : s.step S A keys x=some s') :
    s'.endpoint.daemon.rejectedTotal=s.endpoint.daemon.rejectedTotal ∧
      s'.endpoint.daemon.wire=s.endpoint.daemon.wire := by
  cases x with
  | input y =>
    cases y with
    | datagram pkt out => exact absurd rfl (hx pkt out)
    | sweep now =>
      cases h
      exact ⟨congrArg Daemon.rejectedTotal (releaseStale_daemon now s.endpoint),
        congrArg Daemon.wire (releaseStale_daemon now s.endpoint)⟩
  | post body now =>
    cases h
    exact ⟨rfl,rfl⟩
  | addResource canonical =>
    cases h
    exact ⟨rfl,rfl⟩
  | attachLedger io =>
    cases h
    rw [Service.attachLedger,Daemon.attachLedger]
    generalize GrantLedger.open io s.endpoint.disk=r
    obtain ⟨res,disk⟩ := r
    cases res <;> exact ⟨rfl,rfl⟩

/-- The daemon drops a first message at a full table, and goes on. -/
theorem fullTable_goes_on {e : Endpoint} {pkt : Bytes} (out : Outside) (hm : MeetsFullTable e pkt) :
    ∃e' acts,e.handleDatagram S A keys out pkt=some (e',acts) := by
  obtain ⟨res,hs,sent,hp,-⟩ := Handshake.processed S e.hs pkt keys.secretStatic keys.sigPub out.ephSecret out.send
    out.now
  obtain rfl := (Handshake.processDatagram_ends S e.hs pkt _ _ _ _ _ hp).1.mpr hm
  rw [handleDatagram_first hm.2.1,Endpoint.handleHandshake,hp]
  exact ⟨_,_,rfl⟩

end Steps

section Runs

variable (S : Suite) (A : Aead) (keys : Keys)

/-- The state is one of a daemon whose counts agree, or the daemon has ended. -/
def AgreesIn (o : Option Service) : Prop := ∀s,o=some s → s.endpoint.daemon.Accounted

/-- A datagram moves both counts alike. -/
def CountsAlike (o : Option Service) (x : Event) : Prop :=
  ∀s s' pkt out,o=some s → x=.input (.datagram pkt out) → s.step S A keys x=some s' →
    GrewAlike s.endpoint.daemon s'.endpoint.daemon

/-- No first message finds the handshake table full. -/
def FindsRoom (o : Option Service) (x : Event) : Prop :=
  ∀s pkt out,o=some s → x=.input (.datagram pkt out) → ¬MeetsFullTable s.endpoint pkt

variable {S A keys}

theorem accounted_of_grewAlike {d d' : Daemon} (h : GrewAlike d d') (hd : d.Accounted) : d'.Accounted := by
  obtain ⟨n,-,ht,hs⟩ := h
  rw [Daemon.Accounted] at hd ⊢
  omega

theorem countsAlike_iff (o : Option Service) (x : Event) : CountsAlike S A keys o x ↔ FindsRoom o x := by
  constructor
  · intro h s pkt out hs hx hm
    obtain ⟨e',acts,he⟩ := @fullTable_goes_on S A keys s.endpoint pkt out hm
    have hstep : s.step S A keys x=some { s with endpoint := e' } := by
      rw [hx]
      exact Option.map_eq_some_iff.mpr ⟨_,he,rfl⟩
    obtain ⟨n,-,ht,hsum⟩ := h s _ pkt out hs hx hstep
    obtain ⟨ht',hsum'⟩ := (handleDatagram_counts he).1 hm
    dsimp only at ht hsum
    omega
  · intro h s s' pkt out hs hx hstep
    rw [hx] at hstep
    obtain ⟨⟨e',acts⟩,he,heq⟩ := Option.map_eq_some_iff.mp hstep
    cases heq
    exact (handleDatagram_counts he).2 (h s pkt out hs hx)

/-- From counts that agree, an event keeps them agreeing when it finds room, and then only. -/
theorem agreesIn_iff (o : Option Service) (x : Event) (h : AgreesIn o) :
    AgreesIn (serve S A keys o x) ↔ FindsRoom o x := by
  cases o with
  | none => exact ⟨fun _ s pkt out hs => (by cases hs),fun _ s hs => (by cases hs)⟩
  | some s =>
    have hs := h s rfl
    constructor
    · intro ha s₁ pkt out hs₁ hx hm
      cases hs₁
      obtain ⟨e',acts,he⟩ := @fullTable_goes_on S A keys s.endpoint pkt out hm
      have hstep : serve S A keys (some s) x=some { s with endpoint := e' } := by
        rw [hx]
        exact Option.map_eq_some_iff.mpr ⟨_,he,rfl⟩
      have hagree : e'.daemon.Accounted := ha _ hstep
      obtain ⟨ht,hsum⟩ := (handleDatagram_counts he).1 hm
      rw [Daemon.Accounted] at hs hagree
      omega
    · intro hroom s' hs'
      by_cases hx : ∀pkt out,x≠.input (.datagram pkt out)
      · obtain ⟨ht,hw⟩ := step_counts_other hx hs'
        rw [Daemon.Accounted,ht,hw]
        exact hs
      · obtain ⟨pkt,out,hx⟩ : ∃pkt out,x=.input (.datagram pkt out) := by
          simpa only [not_forall,not_not] using hx
        exact accounted_of_grewAlike ((countsAlike_iff (some s) x).mpr hroom s s' pkt out rfl hx hs') hs

end Runs

/-- The counts agree in every state, and every datagram moves them alike, in exactly the
runs in which no first message finds the handshake table full. -/
theorem rejects_accounted (S : Suite) (A : Aead) (keys : Keys) (disk : Disk) (xs : List Event) :
    (Always (serve S A keys) AgreesIn (some (Service.new S keys disk)) xs ∧
      Meets (serve S A keys) (CountsAlike S A keys) (some (Service.new S keys disk)) xs) ↔
    Meets (serve S A keys) FindsRoom (some (Service.new S keys disk)) xs := by
  have hnew : AgreesIn (some (Service.new S keys disk)) := by
    intro s hs
    cases hs
    rfl
  have hagree : Always (serve S A keys) AgreesIn (some (Service.new S keys disk)) xs ↔
      Meets (serve S A keys) FindsRoom (some (Service.new S keys disk)) xs :=
    @always_iff_meets _ _ (serve S A keys) FindsRoom AgreesIn (fun _ => True) (fun _ _ _ => trivial)
      (fun o x _ ho => agreesIn_iff o x ho) _ xs trivial hnew
  have halike : Meets (serve S A keys) (CountsAlike S A keys) (some (Service.new S keys disk)) xs ↔
      Meets (serve S A keys) FindsRoom (some (Service.new S keys disk)) xs :=
    @meets_congr _ _ (serve S A keys) (CountsAlike S A keys) (fun _ => True) FindsRoom (fun _ _ _ => trivial)
      (fun o x _ => countsAlike_iff o x) _ xs trivial
  rw [hagree,halike,and_self]

section Fill

/-- The free slots of a handshake table. -/
def freeSlots (t : Handshake.Table) : Finset Slot := Finset.univ.filter (fun i => t.slots i=none)

theorem position_of_free (t : Handshake.Table) (h : 0 < (freeSlots t).card) : ∃i,t.position=some i := by
  obtain ⟨i,hi⟩ := Finset.card_pos.mp h
  rw [freeSlots,Finset.mem_filter] at hi
  apply Handshake.position_of_hasFree
  rw [Handshake.Table.hasFree,List.any_eq_true]
  exact ⟨i,List.mem_finRange i,by rw [hi.2]; rfl⟩

theorem not_hasFree (t : Handshake.Table) (h : (freeSlots t).card=0) : t.hasFree=false := by
  rw [Bool.eq_false_iff]
  intro hf
  obtain ⟨i,hi⟩ := Handshake.position_of_hasFree t hf
  have hm : i∈freeSlots t := Finset.mem_filter.mpr ⟨Finset.mem_univ i,Handshake.position_free t i hi⟩
  rw [Finset.card_eq_zero.mp h] at hm
  exact absurd hm (Finset.notMem_empty i)

theorem freeSlots_commit (t : Handshake.Table) (i : Slot) (s : Handshake.Session) (h : t.slots i=none) :
    (freeSlots ⟨Function.update t.slots i (some s)⟩).card+1=(freeSlots t).card := by
  have hm : i∈freeSlots t := Finset.mem_filter.mpr ⟨Finset.mem_univ i,h⟩
  have he : freeSlots ⟨Function.update t.slots i (some s)⟩=(freeSlots t).erase i := by
    ext j
    simp only [freeSlots,Finset.mem_filter,Finset.mem_univ,true_and,Finset.mem_erase,Function.update_apply]
    by_cases hj : j=i <;> simp [hj]
  rw [he,Finset.card_erase_add_one hm]

variable {S : Suite} {A : Aead} {keys : Keys} {out : Outside}

/-- Copies of a message that the initiator wrote take the free slots one by one. -/
theorem copies_fill (hS : S.Laws) {si ei : Key} {index : UInt32} {ts : UInt64} {cookie : Mac}
    (hn : Handshake.NonzeroSecrets S si keys.secretStatic ei out.ephSecret) (hsend : ∀msg,out.send msg=true)
    {pkt : Bytes} (hpkt : pkt=sentMsg1 S si keys.secretStatic ei keys.sigPub index ts cookie)
    (s : Service) (hi : InStep s.endpoint.tables) (n : Nat) (hroom : n ≤ (freeSlots s.endpoint.hs).card) :
    ∃s',(List.replicate n (.input (.datagram pkt out))).foldl (serve S A keys) (some s)=some s' ∧
      InStep s'.endpoint.tables ∧ (freeSlots s'.endpoint.hs).card+n=(freeSlots s.endpoint.hs).card ∧
      s'.endpoint.daemon=s.endpoint.daemon := by
  induction n with
  | zero => exact ⟨s,rfl,hi,rfl,rfl⟩
  | succ n ih =>
    obtain ⟨s',hrun,hi',hcard,hdaemon⟩ := ih (Nat.le_of_succ_le hroom)
    obtain ⟨i,hp⟩ := position_of_free s'.endpoint.hs (by omega)
    have hstep := @step_sent S A keys s'.endpoint out hi' hS si ei index ts cookie i hn hp (hsend _)
    have hfree := freeSlots_commit s'.endpoint.hs i
      (Handshake.agreed S si keys.secretStatic ei out.ephSecret ts out.now) (Handshake.position_free _ i hp)
    rw [← hpkt] at hstep
    refine ⟨⟨s'.endpoint.commit i (Handshake.agreed S si keys.secretStatic ei out.ephSecret ts out.now) out.later,
      s'.metrics⟩,?_,hi'.commit _ _ _,?_,hdaemon⟩
    · rw [List.replicate_succ',List.foldl_append,hrun]
      exact serve_input hstep
    · change (freeSlots ⟨Function.update s'.endpoint.hs.slots i _⟩).card+(n+1)=_
      omega

def sampleService : Service := Service.new sampleSuite responderKeys ⟨[],none,[]⟩

/-- Counts that agree stop agreeing at a first message that finds no free slot. -/
theorem disagrees_of_meetsFullTable {s : Service} {pkt : Bytes} (out : Outside) (hs : s.endpoint.daemon.Accounted)
    (hm : MeetsFullTable s.endpoint pkt) : ¬AgreesIn (serve S A keys (some s) (.input (.datagram pkt out))) := by
  intro ha
  have hs' : AgreesIn (some s) := by
    intro s' heq
    cases heq
    exact hs
  exact (agreesIn_iff (some s) (.input (.datagram pkt out)) hs').mp ha s pkt out rfl rfl hm

theorem sample_fills : ∃s,(List.replicate 16 (.input (.datagram (sampleInitiation 7) (sampleOutside 0)))).foldl
    (serve sampleSuite chachaPoly responderKeys) (some sampleService)=some s ∧
    s.endpoint.daemon.Accounted ∧ MeetsFullTable s.endpoint (sampleInitiation 7) := by
  have hin : InStep sampleService.endpoint.tables := sample_inStep
  have hsixteen : (freeSlots sampleService.endpoint.hs).card=16 := by decide +kernel
  have hnew : sampleService.endpoint.daemon.Accounted := rfl
  have hf := sentMsg1_fields sampleSuite initiatorSecret responderSecret initiatorEph responderSig 7 1700000000000
    (fixed 16 []) sampleSuite_laws
  obtain ⟨s,hrun,-,hcard,hdaemon⟩ := @copies_fill sampleSuite chachaPoly responderKeys (sampleOutside 0)
    sampleSuite_laws initiatorSecret initiatorEph 7 1700000000000 (fixed 16 []) sample_nonzero (fun _ => rfl)
    (sampleInitiation 7) rfl sampleService hin 16 (by rw [hsixteen])
  have hempty : (freeSlots s.endpoint.hs).card=0 := by omega
  rw [← hdaemon] at hnew
  exact ⟨s,hrun,hnew,hf.length,hf.kind,not_hasFree _ hempty⟩

/-- Sixteen copies of an initiation fill the table; the next one is counted in the sum alone. -/
theorem full_table_uncounted :
    ¬Always (serve sampleSuite chachaPoly responderKeys) AgreesIn (some sampleService)
      (List.replicate 17 (.input (.datagram (sampleInitiation 7) (sampleOutside 0)))) := by
  intro h
  obtain ⟨s,hrun,hs,hm⟩ := sample_fills
  have hagree := always_foldl _ _ h
  rw [List.replicate_succ',List.foldl_append,hrun,List.foldl_cons,List.foldl_nil] at hagree
  have hno := @disagrees_of_meetsFullTable sampleSuite chachaPoly responderKeys s _ (sampleOutside 0) hs hm
  exact hno hagree

end Fill

end Bolina
