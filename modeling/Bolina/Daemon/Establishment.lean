import Bolina.Daemon.Slots
import Bolina.Transport.Traffic

namespace Bolina

open BigEndian Codec State Transport Noise
open Handshake (Slot NonzeroSecrets agreed processed)

/-- The first message of an initiator, and the step of the daemon that takes it in. -/
structure Exchange (S : Suite) (A : Aead) (keys : Keys) (si ei : Key) (index : UInt32) (ts : UInt64) (cookie : Mac)
    (msg1 : Bytes) (i₁ : Initiator) (e : Endpoint) (out : Outside) (slot : Slot) (e' : Endpoint) (acts : List Act) :
    Prop where
  wrote : (Initiator.new S (KeyPair.fromSecret S si) (KeyPair.fromSecret S keys.secretStatic).pub).writeInitiation S
    ei index ts keys.sigPub cookie=(.ok msg1,i₁)
  stepped : e.step S A keys (.datagram msg1 out)=some (e',acts)
  committed : .committed slot∈acts

/-- The session an initiator makes of an exchange: its peer index is the sender index
of the answer. -/
def clientSession (index : UInt32) (msg2 : Bytes) (result : HandshakeResult) (now : UInt64) : Transport.Session :=
  admittedSession index (be32 (slice msg2 off2SenderIndex 4)) result.sendKey result.recvKey result.handshakeHash now

/-- The initiator finalizes with the answer that was sent, and what either session
seals is addressed to the other and opens there. -/
def Establishes (S : Suite) (A : Aead) (keys : Keys) (index : UInt32) (now : UInt64) (i₁ : Initiator) (slot : Slot)
    (e' : Endpoint) (acts : List Act) : Prop :=
  ∃msg2 i₂ s,.sent msg2∈acts ∧ i₁.readResponse S msg2 keys.sigPub=(.ok (),i₂) ∧
    e'.sessions.lookup (UInt32.ofNat slot)=some s ∧
    Reaches A (clientSession index msg2 (i₂.finalize S) now) s (UInt32.ofNat slot) ∧
    Reaches A s (clientSession index msg2 (i₂.finalize S) now) index

section Exchange

variable {S : Suite} {A : Aead} {keys : Keys} {si ei : Key} {index : UInt32} {ts : UInt64} {cookie : Mac}
  {msg1 : Bytes} {i₁ : Initiator} {e e' : Endpoint} {out : Outside} {slot : Slot} {acts : List Act}

/-- A handshake message that commits a slot was read and answered. -/
theorem commits_of_committed (h : e.handleHandshake S keys out msg1=some (e',acts)) (hc : .committed slot∈acts) :
    ∃t' sent info r₁ r₂ msg,Handshake.Commits S e.hs msg1 keys.secretStatic keys.sigPub out.ephSecret out.send
      out.now slot t' sent info r₁ r₂ msg := by
  rw [Endpoint.handleHandshake] at h
  obtain ⟨res,hs,sent,hp,hcase⟩ := processed S e.hs msg1 keys.secretStatic keys.sigPub out.ephSecret out.send out.now
  rw [hp] at h
  cases hcase with
  | fails err _ _ hf =>
    have hn : Act.committed slot∉sent.map Act.sent := by simp
    cases err <;> (cases h; exact absurd hc hn)
  | commits i _ _ info r₁ r₂ msg hcom =>
    have hacts : acts=sent.map Act.sent++[.committed i] := by
      dsimp only at h
      rw [hcom.holds] at h
      dsimp only at h
      split at h
      · cases h
        rfl
      · cases h
        rfl
    rw [hacts] at hc
    have hi : slot=i := by simpa using hc
    rw [hi]
    exact ⟨_,_,info,r₁,r₂,msg,hcom⟩

/-- What is known of an exchange that commits. -/
structure Exchanged (S : Suite) (keys : Keys) (si ei : Key) (index : UInt32) (ts : UInt64) (cookie : Mac)
    (msg1 : Bytes) (i₁ : Initiator) (e : Endpoint) (out : Outside) (slot : Slot) (e' : Endpoint) (acts : List Act) :
    Prop where
  secrets : NonzeroSecrets S si keys.secretStatic ei out.ephSecret
  first : msg1=sentMsg1 S si keys.secretStatic ei keys.sigPub index ts cookie
  waits : i₁=waiting S si keys.secretStatic ei ts
  position : e.hs.position=some slot
  endpoint : e'=e.commit slot (agreed S si keys.secretStatic ei out.ephSecret ts out.now) out.later
  shown : acts=[.sent (sentMsg2 S si keys.secretStatic ei out.ephSecret keys.sigPub index (UInt32.ofNat slot) ts
    Handshake.zeroCookie),.committed slot]

theorem Exchange.exchanged (hS : S.Laws) (hi : InStep e.tables)
    (h : Exchange S A keys si ei index ts cookie msg1 i₁ e out slot e' acts) :
    Exchanged S keys si ei index ts cookie msg1 i₁ e out slot e' acts := by
  obtain ⟨hes,hss⟩ := secrets_of_writeInitiation S _ _ _ _ _ _ _ _ h.wrote
  obtain ⟨hes1,hes2⟩ := dh_fromSecret S hS ei keys.secretStatic hes
  obtain ⟨hss1,hss2⟩ := dh_fromSecret S hS si keys.secretStatic hss
  have hwrote := writeInitiation_eq S
    (Initiator.new S (KeyPair.fromSecret S si) (KeyPair.fromSecret S keys.secretStatic).pub) ei keys.sigPub index ts
    cookie _ _ hes1 hss1
  have hboth := h.wrote.symm.trans hwrote
  have hfirst : msg1=sentMsg1 S si keys.secretStatic ei keys.sigPub index ts cookie :=
    Except.ok.inj (congrArg Prod.fst hboth)
  have hwaits : i₁=waiting S si keys.secretStatic ei ts := congrArg Prod.snd hboth
  have hstep := h.stepped
  rw [Endpoint.step,hfirst,handleDatagram_first
    (sentMsg1_fields S si keys.secretStatic ei keys.sigPub index ts cookie hS).kind] at hstep
  obtain ⟨t',sent,info,r₁,r₂,msg,hcom⟩ := commits_of_committed hstep h.committed
  have hread := readInitiation_written S hS (Responder.new S (KeyPair.fromSecret S keys.secretStatic)) keys.sigPub
    (KeyPair.fromSecret S ei).pub (KeyPair.fromSecret S si).pub index ts cookie _ _ hes2 hss2
  have hr := hcom.reads.symm.trans hread
  have hr₁ : r₁=answering S si keys.secretStatic ei ts := congrArg Prod.snd hr
  obtain ⟨hee,hse⟩ := secrets_of_writeResponse S _ _ _ _ _ _ _ _ hcom.writes
  have hn : NonzeroSecrets S si keys.secretStatic ei out.ephSecret := by
    rw [hr₁] at hee hse
    refine ⟨hes,hss,?_,?_⟩
    · intro hz
      exact hee ((hS.commutes _ _).trans hz)
    · intro hz
      exact hse ((hS.commutes _ _).trans hz)
  have hinfo : info=⟨index,(KeyPair.fromSecret S si).pub,ts⟩ := Except.ok.inj (congrArg Prod.fst hr)
  have hagree := agreement S si keys.secretStatic ei out.ephSecret keys.sigPub index (UInt32.ofNat slot) ts cookie
    Handshake.zeroCookie hS hn.es hn.ss hn.ee hn.se
  have hmsg : msg=sentMsg2 S si keys.secretStatic ei out.ephSecret keys.sigPub index (UInt32.ofNat slot) ts
      Handshake.zeroCookie := by
    have hw := hcom.writes
    rw [hr₁,hinfo] at hw
    exact Except.ok.inj (congrArg Prod.fst (hw.symm.trans hagree.writes2))
  have hsend := hcom.accepted
  rw [hmsg] at hsend
  have hsent := @step_sent S A keys e out hi hS si ei index ts cookie slot hn hcom.first hsend
  have hend := h.stepped
  rw [hfirst,hsent] at hend
  cases hend
  exact ⟨hn,hfirst,hwaits,hcom.first,rfl,rfl⟩

theorem commit_slot (e : Endpoint) (i : Slot) (s : Handshake.Session) (later : UInt64) :
    (e.commit i s later).hs.slots i=some s := Function.update_self _ _ _

theorem commit_lookup (e : Endpoint) (i : Slot) (s : Handshake.Session) (later : UInt64) :
    (e.commit i s later).sessions.lookup (UInt32.ofNat i)=
      some (admittedSession (UInt32.ofNat i) 0 s.sendKey s.recvKey s.handshakeHash later) :=
  lookup_put_self _ _ _ (slot_range i)

/-- The initiator that has read the answer. -/
def finished (S : Suite) (si sr ei er : Key) (ts : UInt64) : Initiator :=
  { waiting S si sr ei ts with re := (KeyPair.fromSecret S er).pub,sym := (secondMixed S si sr ei er ts).2 }

/-- The keys cross, so only the peer index of the daemon's session can be missing. -/
theorem crossed (hA : A.Correct) (S : Suite) (si sr ei er : Key) (ts now now' later : UInt64) (index peer local' : UInt32)
    (msg2 : Bytes) (hpeer : be32 (slice msg2 off2SenderIndex 4)=local') :
    let s := admittedSession local' peer (agreed S si sr ei er ts now).sendKey (agreed S si sr ei er ts now).recvKey
      (agreed S si sr ei er ts now).handshakeHash later
    let client := clientSession index msg2 ((finished S si sr ei er ts).finalize S) now'
    Reaches A client s local' ∧ (Reaches A s client index ↔ peer=index) :=
  ⟨(reaches_iff hA _ _ _ rfl rfl rfl).mpr hpeer,reaches_iff hA _ _ _ rfl rfl rfl⟩

/-- Where the tables are in step, an exchange that commits establishes the two sessions
exactly when the index of the initiator is the one the daemon's session holds. -/
theorem Exchange.establishes (hS : S.Laws) (hA : A.Correct) (hi : InStep e.tables) (now : UInt64)
    (h : Exchange S A keys si ei index ts cookie msg1 i₁ e out slot e' acts) :
    Establishes S A keys index now i₁ slot e' acts ↔ index=0 := by
  have hx := h.exchanged hS hi
  have ha := agreement S si keys.secretStatic ei out.ephSecret keys.sigPub index (UInt32.ofNat slot) ts cookie
    Handshake.zeroCookie hS hx.secrets.es hx.secrets.ss hx.secrets.ee hx.secrets.se
  have hlook := commit_lookup e slot (agreed S si keys.secretStatic ei out.ephSecret ts out.now) out.later
  obtain ⟨hforth,hback⟩ := crossed hA S si keys.secretStatic ei out.ephSecret ts out.now now out.later index 0
    (UInt32.ofNat slot) _ ha.slotIndex
  rw [← hx.endpoint] at hlook
  rw [Establishes,hx.shown,hx.waits]
  constructor
  · intro hw
    obtain ⟨msg2,i₂,s,hsent,hread,hs,_,hreaches⟩ := hw
    have hmsg : msg2=sentMsg2 S si keys.secretStatic ei out.ephSecret keys.sigPub index (UInt32.ofNat slot) ts
        Handshake.zeroCookie := by simpa using hsent
    rw [hmsg,ha.reads2] at hread
    rw [hlook] at hs
    cases hs
    cases hread
    rw [hmsg] at hreaches
    exact (hback.mp hreaches).symm
  · intro h0
    exact ⟨_,finished S si keys.secretStatic ei out.ephSecret ts,_,List.mem_cons_self,ha.reads2,hlook,hforth,
      hback.mpr h0.symm⟩

end Exchange

/-- In any state a run reaches, an exchange that commits gives two sessions that reach
each other exactly when the index of the initiator is zero: the daemon never learns
another one. -/
theorem establishes_iff (S : Suite) (hS : S.Laws) (A : Aead) (hA : A.Correct) (keys : Keys) (resolver : Resolver)
    (ledger : Option GrantLedger) (disk : Disk) (xs : List Input) (e e' : Endpoint) (log : Log)
    (hreach : runFrom S A keys (Endpoint.boot S keys resolver ledger disk) xs=some (e,log))
    (si ei : Key) (index : UInt32) (ts now : UInt64) (cookie : Mac) (msg1 : Bytes) (i₁ : Initiator) (out : Outside)
    (slot : Slot) (acts : List Act)
    (hex : Exchange S A keys si ei index ts cookie msg1 i₁ e out slot e' acts) :
    Establishes S A keys index now i₁ slot e' acts ↔ index=0 :=
  hex.establishes hS hA (inStep_run xs hreach) now

section Arrival

variable {S : Suite} {A : Aead} {keys : Keys} {e : Endpoint} {out : Outside} {pkt plain : Bytes}

/-- The endpoint whose session has opened a packet. -/
def Endpoint.heard (e : Endpoint) (idx : UInt32) (rx : Transport.Session) (window : ReplayWindow) : Endpoint :=
  { e with sessions := e.sessions.put idx { rx with recv := { rx.recv with window } } }

/-- What a sealed packet of an unbound session opens to is read as a binding message. -/
theorem step_unbound (hA : A.Correct) {tx rx : Transport.Session} (hs : Seals A tx pkt plain)
    (hfit : plain.length ≤ 4096) (hkey : rx.recv.key=tx.send.key) (hf : e.sessions.lookup tx.peerIndex=some rx)
    (hb : rx.bound=false) (htake : (rx.recv.window.check (headerCounter pkt)).1=true) :
    e.step S A keys (.datagram pkt out)=
      ((e.heard tx.peerIndex rx (rx.recv.window.check (headerCounter pkt)).2).handleBinding S keys out.now plain
        rx.handshakeHash rx.localIndex tx.peerIndex).map (fun ea => (ea.1,.opened tx.peerIndex::ea.2)) := by
  have hlen := hs.length hA
  have hopen := open_sealed hA tx rx hkey ⟨pkt,plain,ptBuf⟩ hs (by rw [ptBuf,List.length_replicate]; exact hfit) htake
  obtain ⟨counter,ct,hpkt,_⟩ := hs
  obtain ⟨haddress,hkind⟩ := header_fields { tx with send := { tx.send with counter } } ct
  rw [← hpkt] at haddress hkind
  have hshort : ¬pkt.length < headerSize+16 := by omega
  have htake' : (plain++ptBuf.drop plain.length).take plain.length=plain := List.take_left
  rw [Endpoint.step,handleDatagram_transport hkind,Endpoint.handleTransport,if_neg hshort]
  simp only [haddress,hf,hopen,hb,Bool.false_eq_true,if_false,htake',Endpoint.heard]

/-- The session the initiator makes of the answer that names the slot. -/
def clientOf (S : Suite) (si sr ei er sig : Key) (index : UInt32) (i : Slot) (ts now : UInt64) : Transport.Session :=
  clientSession index (sentMsg2 S si sr ei er sig index (UInt32.ofNat i) ts Handshake.zeroCookie)
    ((finished S si sr ei er ts).finalize S) now

/-- The first packet an initiator seals opens at the slot that was committed for it. -/
theorem first_packet (hS : S.Laws) (hA : A.Correct) {si ei er : Key}
    (hn : NonzeroSecrets S si keys.secretStatic ei er) (index : UInt32) (i : Slot) (ts now later : UInt64)
    (hfit : plain.length ≤ 4096) :
    let s := agreed S si keys.secretStatic ei er ts now
    let rx := admittedSession (UInt32.ofNat i) 0 s.sendKey s.recvKey s.handshakeHash later
    ∃pkt window,Seals A (clientOf S si keys.secretStatic ei er keys.sigPub index i ts now) pkt plain ∧
      (e.commit i s later).step S A keys (.datagram pkt out)=
        (((e.commit i s later).heard (UInt32.ofNat i) rx window).handleBinding S keys out.now plain s.handshakeHash
          (UInt32.ofNat i) (UInt32.ofNat i)).map (fun ea => (ea.1,.opened (UInt32.ofNat i)::ea.2)) := by
  intro s rx
  have ha := agreement S si keys.secretStatic ei er keys.sigPub index (UInt32.ofNat i) ts Handshake.zeroCookie
    Handshake.zeroCookie hS hn.es hn.ss hn.ee hn.se
  obtain ⟨pkt,hp⟩ := sealed_first hA (clientOf S si keys.secretStatic ei er keys.sigPub index i ts now) plain hfit rfl
  have hs := sealed_pair hA _ _ _ _ hp
  have hpeer : (clientOf S si keys.secretStatic ei er keys.sigPub index i ts now).peerIndex=UInt32.ofNat i :=
    ha.slotIndex
  have hf : (e.commit i s later).sessions.lookup (UInt32.ofNat i)=some rx := commit_lookup e i s later
  rw [← hpeer] at hf
  have hstep := @step_unbound S A keys (e.commit i s later) out pkt plain hA _ _ hs hfit rfl hf rfl
    (by rw [check_of_zero _ rfl])
  rw [hpeer] at hstep
  exact ⟨pkt,_,hs,hstep⟩

end Arrival

section Sample

theorem chachaPoly_correct : chachaPoly.Correct where
  tagLength k n m a ct h := by
    cases h
    exact Ciphers.sealBytes_length _ _ _ _
  decrypts k n m a ct h := by
    cases h
    exact Ciphers.openBytes_sealBytes _ _ _ _
  encrypts _ _ _ _ _ _ := rfl

def sampleWaiting : Initiator :=
  waiting sampleSuite initiatorSecret responderSecret initiatorEph 1700000000000

theorem sample_exchange (index : UInt32) (now : UInt64) :
    Exchange sampleSuite chachaPoly responderKeys initiatorSecret initiatorEph index 1700000000000 (fixed 16 [])
      (sampleInitiation index) sampleWaiting bootedEndpoint (sampleOutside now) 0 (engagedEndpoint now)
      [.sent (sampleAnswer index),.committed 0] := by
  have ha := agreement sampleSuite initiatorSecret responderSecret initiatorEph responderEph responderSig index 0
    1700000000000 (fixed 16 []) Handshake.zeroCookie sampleSuite_laws sample_nonzero.es sample_nonzero.ss
    sample_nonzero.ee sample_nonzero.se
  exact ⟨ha.writes1,sample_step index now,List.mem_cons_of_mem _ List.mem_cons_self⟩

/-- The session the daemon keeps of the sample exchange. -/
def engagedSession (now : UInt64) : Transport.Session :=
  let s := agreed sampleSuite initiatorSecret responderSecret initiatorEph responderEph 1700000000000 now
  admittedSession 0 0 s.sendKey s.recvKey s.handshakeHash now

theorem engaged_lookup (now : UInt64) : (engagedEndpoint now).sessions.lookup 0=some (engagedSession now) :=
  commit_lookup bootedEndpoint 0 _ now

theorem establishes_iff_sample :
    Exchange sampleSuite chachaPoly responderKeys initiatorSecret initiatorEph 0 1700000000000 (fixed 16 [])
        (sampleInitiation 0) sampleWaiting bootedEndpoint (sampleOutside 0) 0 (engagedEndpoint 0)
        [.sent (sampleAnswer 0),.committed 0] ∧
      Establishes sampleSuite chachaPoly responderKeys 0 0 sampleWaiting 0 (engagedEndpoint 0)
        [.sent (sampleAnswer 0),.committed 0] :=
  ⟨sample_exchange 0 0,(establishes_iff sampleSuite sampleSuite_laws chachaPoly chachaPoly_correct responderKeys
    (Resolver.new sampleSuite.toCrypto responderSig.toList) none ⟨[],none,[]⟩ [] bootedEndpoint (engagedEndpoint 0) []
    rfl initiatorSecret initiatorEph 0 1700000000000 0 (fixed 16 []) _ _ _ 0 _ (sample_exchange 0 0)).mpr rfl⟩

/-- An initiator that gives the index 7 gets packets under the index 0. -/
theorem initiator_index_dropped :
    Exchange sampleSuite chachaPoly responderKeys initiatorSecret initiatorEph 7 1700000000000 (fixed 16 [])
        (sampleInitiation 7) sampleWaiting bootedEndpoint (sampleOutside 0) 0 (engagedEndpoint 0)
        [.sent (sampleAnswer 7),.committed 0] ∧
      ¬Establishes sampleSuite chachaPoly responderKeys 7 0 sampleWaiting 0 (engagedEndpoint 0)
        [.sent (sampleAnswer 7),.committed 0] ∧
      ∃s p,(engagedEndpoint 0).sessions.lookup 0=some s ∧
        (p,[])∈sealedPairs chachaPoly s [(List.replicate 32 0,[])] ∧ be32 (slice p 4 4)=0 := by
  obtain ⟨p,hp⟩ := sealed_first chachaPoly_correct (engagedSession 0) [] (Nat.zero_le _) rfl
  refine ⟨sample_exchange 7 0,?_,_,p,engaged_lookup 0,hp,sealed_address chachaPoly_correct _ _ _ hp⟩
  intro h
  have h7 := ((sample_exchange 7 0).establishes sampleSuite_laws chachaPoly_correct sample_inStep 0).mp h
  exact absurd h7 (by decide)

end Sample

end Bolina
