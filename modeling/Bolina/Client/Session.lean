import Bolina.Daemon.BoundSession
import Bolina.Daemon.Channels

namespace Bolina.Client

open Codec State Transport Noise BigEndian PartialRun
open Handshake (Slot NonzeroSecrets agreed)

/-- Why an exchange gives no session. -/
inductive ExchangeError where
  | write (e : Noise.Error)
  | silence
  | size (n : Nat)
  | read (e : Noise.Error)
  deriving DecidableEq

structure Exchange where
  result : HandshakeResult
  session : Transport.Session
  daemonIndex : UInt32
  deriving DecidableEq

/-- What is read of the answer when it has come. -/
def readAnswer (S : Suite) (initiator : Initiator) (daemonSigPub : Key) (m2 : Bytes) : Except ExchangeError Exchange :=
  if m2.length≠msg2Size then .error (.size m2.length)
  else
    match initiator.readResponse S m2 daemonSigPub with
    | (.error e,_) => .error (.read e)
    | (.ok (),initiator) =>
      let result := initiator.finalize S
      let daemonIndex := be32 (slice m2 off2SenderIndex 4)
      let session := { Session.new with
        peerIndex := daemonIndex
        send := { CipherState.new with key := result.sendKey }
        recv := { RecvState.new with key := result.recvKey }
        bound := true }
      .ok ⟨result,session,daemonIndex⟩

/-- The network gives for a datagram the one that comes back, or nothing in time. -/
def exchangeWith (S : Suite) (net : Bytes → Option Bytes) (kex : KeyPair) (daemonKexPub daemonSigPub : Key)
    (ourIndex : UInt32) (ts : UInt64) (ephSecret : Key) : Except ExchangeError Exchange :=
  match (Initiator.new S kex daemonKexPub).writeInitiation S ephSecret ourIndex ts daemonSigPub (fixed 16 []) with
  | (.error e,_) => .error (.write e)
  | (.ok msg1,initiator) =>
    match net msg1 with
    | none => .error .silence
    | some m2 => readAnswer S initiator daemonSigPub m2

/-- The packet in a buffer that is as long as it needs. -/
def sendSealed (A : Aead) (session : Transport.Session) (plaintext : Bytes) :
    Except TransportError Bytes × Transport.Session :=
  match session.seal A (List.replicate (headerSize+plaintext.length+16) 0) plaintext with
  | (.error e,session) => (.error e,session)
  | (.ok (n,wire),session) => (.ok (wire.take n),session)

/-- The length of the certificate goes first, as a `u16`. -/
def bindingPt (sign : Bytes → Bytes) (handshakeHash : Key) (certWire : Bytes) : Bytes :=
  beBytes 2 certWire.length++certWire++sign (domainBinding::handshakeHash.toList)

/-- The binding frame of the exchange, sealed. -/
def sendBinding (A : Aead) (ex : Exchange) (sign : Bytes → Bytes) (certWire : Bytes) :
    Except TransportError Bytes × Transport.Session :=
  sendSealed A ex.session (bindingPt sign ex.result.handshakeHash certWire)

/-- The plaintexts of a ladder; the first that cannot be sealed ends it. -/
def sendAll (A : Aead) : Transport.Session → List Bytes → Except TransportError (List Bytes) × Transport.Session
  | s,[] => (.ok [],s)
  | s,pt::pts =>
    match sendSealed A s pt with
    | (.error e,s) => (.error e,s)
    | (.ok wire,s) =>
      match sendAll A s pts with
      | (.error e,s) => (.error e,s)
      | (.ok wires,s) => (.ok (wire::wires),s)

section Sealing

variable {A : Aead} {s : Transport.Session} {pt : Bytes} {pts : List Bytes}

/-- The session after it has sealed some packets. -/
def sealing (s : Transport.Session) (n : Nat) : Transport.Session :=
  { s with send := { s.send with counter := s.send.counter+UInt64.ofNat n } }

theorem sealing_zero (s : Transport.Session) : sealing s 0=s := by
  simp [sealing]

theorem sealing_sealing (s : Transport.Session) (m n : Nat) : sealing (sealing s m) n=sealing s (m+n) := by
  simp [sealing,UInt64.add_assoc]

/-- A packet of a session, under its own counter. -/
structure Sent (A : Aead) (s : Transport.Session) (wire pt : Bytes) : Prop where
  seals : Seals A s wire pt
  counter : headerCounter wire=s.send.counter

theorem sendSealed_ok (hA : A.Correct) (hfit : pt.length ≤ 4096) (hk : s.send.counter < rekeyAfterMessages) :
    ∃wire,sendSealed A s pt=(.ok wire,sealing s 1) ∧ Sent A s wire pt := by
  have hsome := hA.encrypts s.send.key (transportNonce s.send.counter) pt s.header (by simp [transportNonce]) hfit
  obtain ⟨ct,hct⟩ := Option.isSome_iff_exists.mp hsome
  have hlen : ¬(List.replicate (headerSize+pt.length+16) (0 : UInt8)).length < headerSize+pt.length+16 := by simp
  refine ⟨s.header++ct,?_,⟨s.send.counter,ct,rfl,hct⟩,headerCounter_header s ct⟩
  rw [sendSealed,seal_eq,if_neg hlen,if_neg (UInt64.not_le.mpr hk),hct]
  dsimp only
  rw [seal_packet A hA.tagLength s _ pt ct hlen hct]
  rfl

theorem sealing_counter {n : Nat} (h : s.send.counter.toNat+n < 2^64) :
    (sealing s n).send.counter.toNat=s.send.counter.toNat+n := by
  change (s.send.counter+UInt64.ofNat n).toNat=_
  rw [UInt64.toNat_add,UInt64.toNat_ofNat_of_lt' (by rw [UInt64.size]; omega),Nat.mod_eq_of_lt h]

/-- All packets of a ladder are sealed, under the counters that follow each other. -/
theorem sendAll_ok (hA : A.Correct) (hfit : ∀pt∈pts,pt.length ≤ 4096) (hk : s.send.counter.toNat+pts.length ≤ 2^48) :
    ∃wires,sendAll A s pts=(.ok wires,sealing s pts.length) ∧ wires.length=pts.length ∧
      ∀k wire pt,wires[k]?=some wire → pts[k]?=some pt →
        Seals A s wire pt ∧ (headerCounter wire).toNat=s.send.counter.toNat+k := by
  induction pts generalizing s with
  | nil =>
    refine ⟨[],by rw [sendAll,List.length_nil,sealing_zero],rfl,?_⟩
    intro k wire pt hw
    simp at hw
  | cons pt pts ih =>
    obtain ⟨hpt,hfit⟩ := List.forall_mem_cons.mp hfit
    rw [List.length_cons] at hk
    have hlt : s.send.counter < rekeyAfterMessages := by
      rw [UInt64.lt_iff_toNat_lt]
      have hr : rekeyAfterMessages.toNat=2^48 := by decide
      omega
    obtain ⟨wire,hwire,hsent⟩ := sendSealed_ok (A := A) hA hpt hlt
    have hone := @sealing_counter s 1 (by omega)
    obtain ⟨wires,hwires,hlen,hall⟩ := @ih (sealing s 1) hfit (by omega)
    refine ⟨wire::wires,?_,by rw [List.length_cons,List.length_cons,hlen],?_⟩
    · rw [sendAll,hwire]
      dsimp only
      rw [hwires,sealing_sealing,List.length_cons,Nat.add_comm]
    · intro k w p hw hp
      cases k with
      | zero =>
        cases hw
        cases hp
        exact ⟨hsent.seals,by rw [hsent.counter,Nat.add_zero]⟩
      | succ k =>
        obtain ⟨hseals,hcounter⟩ := hall k w p hw hp
        exact ⟨hseals,by omega⟩

end Sealing

/-- The node has the session bound that the client seals under, and has heard nothing under a counter to come. -/
structure Joined (A : Aead) (t : SessionTable) (s : Transport.Session) : Prop where
  rings : ∃rx past,t.lookup s.peerIndex=some rx ∧ rx.bound=true ∧ rx.recv.key=s.send.key ∧
    Accounts rx.recv.window past ∧ ∀c∈past,c.toNat < s.send.counter.toNat

section Delivery

variable {S : Suite} {A : Aead} {keys : Keys}

/-- The packets that arrive, by their place among those sent, with what the node finds outside. -/
def arriving (s : Transport.Session) (wires pts : List Bytes) (arrivals : List (Nat × Outside)) : List Mail :=
  arrivals.map (fun a => ⟨s,(wires[a.1]?).getD [],(pts[a.1]?).getD [],a.2⟩)

/-- Whatever a joined client sends, what arrives of it within 64 packets of its order is handled as the plaintexts it
was sealed from, each once and as it arrives. -/
theorem ladder_delivers (S : Suite) (A : Aead) (hA : A.Correct) (keys : Keys) (e : Endpoint) (s : Transport.Session)
    (hj : Joined A e.sessions s) (pts : List Bytes) (hfit : ∀pt∈pts,pt.length ≤ 4096)
    (hk : s.send.counter.toNat+pts.length ≤ 2^48) (arrivals : List (Nat × Outside))
    (hsent : ∀a∈arrivals,a.1 < pts.length)
    (horder : arrivals.Pairwise (fun a b => a.1≠b.1 ∧ a.1 < b.1+64)) :
    ∃wires,sendAll A s pts=(.ok wires,sealing s pts.length) ∧
      (run (Endpoint.after S A keys) e (arrivals.map (fun a => .datagram ((wires[a.1]?).getD []) a.2))).map
          (fun e' => { e' with sessions := e.sessions })=
        run (fun e a => e.handleEnvelope S a.2.io a.2.now ((pts[a.1]?).getD [])) e arrivals := by
  obtain ⟨rx,past,hf,hb,hkey,hwindow,hpast⟩ := hj.rings
  obtain ⟨wires,hwires,hlen,hall⟩ := sendAll_ok hA hfit hk
  refine ⟨wires,hwires,?_⟩
  have hpacket : ∀a∈arrivals,Seals A s ((wires[a.1]?).getD []) ((pts[a.1]?).getD []) ∧
      (headerCounter ((wires[a.1]?).getD [])).toNat=s.send.counter.toNat+a.1 ∧ ((pts[a.1]?).getD []).length ≤ 4096 := by
    intro a ha
    have hlt := hsent a ha
    have hw : wires[a.1]?=some (wires.get ⟨a.1,by omega⟩) := List.getElem?_eq_getElem _
    have hp : pts[a.1]?=some (pts.get ⟨a.1,hlt⟩) := List.getElem?_eq_getElem _
    obtain ⟨hseals,hcounter⟩ := hall a.1 _ _ hw hp
    rw [hw,hp,Option.getD_some,Option.getD_some]
    exact ⟨hseals,hcounter,hfit _ (List.get_mem _ _)⟩
  have hmail : ∀m∈arriving s wires pts arrivals,Linked A e.sessions m := by
    intro m hm
    obtain ⟨a,ha,rfl⟩ := List.mem_map.mp hm
    obtain ⟨hseals,-,hfits⟩ := hpacket a ha
    exact ⟨hseals,hfits,rx,hf,hb,hkey⟩
  have hahead : ∀m∈arriving s wires pts arrivals,∀r,e.sessions.lookup m.index=some r → Accounts r.recv.window past ∧
      ∀c∈past,c≠m.counter ∧ c.toNat < m.counter.toNat+64 := by
    intro m hm r hr
    obtain ⟨a,ha,rfl⟩ := List.mem_map.mp hm
    have hsame := Option.some.inj (hf.symm.trans hr)
    subst hsame
    refine ⟨hwindow,?_⟩
    intro c hc
    have hlt := hpast c hc
    have hcounter := (hpacket a ha).2.1
    change _ ∧ c.toNat < (headerCounter ((wires[a.1]?).getD [])).toNat+64
    refine ⟨?_,by omega⟩
    intro heq
    have hnat : c.toNat=(headerCounter ((wires[a.1]?).getD [])).toNat := congrArg UInt64.toNat heq
    omega
  have htimely : (arriving s wires pts arrivals).Pairwise Timely := by
    rw [arriving,List.pairwise_map]
    apply horder.imp_of_mem
    intro a b ha hb hab hi
    have hca := (hpacket a ha).2.1
    have hcb := (hpacket b hb).2.1
    change headerCounter ((wires[a.1]?).getD [])≠headerCounter ((wires[b.1]?).getD []) ∧
      (headerCounter ((wires[a.1]?).getD [])).toNat < (headerCounter ((wires[b.1]?).getD [])).toNat+64
    refine ⟨?_,by omega⟩
    intro heq
    have hnat := congrArg UInt64.toNat heq
    omega
  have hrun := timely_transparent S A hA keys e (fun _ => past) (arriving s wires pts arrivals) hmail hahead htimely
  have hinputs : (arriving s wires pts arrivals).map Mail.input=
      arrivals.map (fun a => .datagram ((wires[a.1]?).getD []) a.2) := List.map_map
  rw [hinputs] at hrun
  rw [hrun]
  have hplain : ∀(as : List (Nat × Outside)) (e : Endpoint),
      run (fun e (m : Mail) => e.handleEnvelope S m.out.io m.out.now m.plain) e (arriving s wires pts as)=
        run (fun e a => e.handleEnvelope S a.2.io a.2.now ((pts[a.1]?).getD [])) e as := by
    intro as
    induction as with
    | nil => exact fun _ => rfl
    | cons a as ih =>
      intro e
      rw [arriving,List.map_cons,run_cons,run_cons]
      exact congrArg _ (funext ih)
  exact hplain arrivals e

end Delivery

/-- The message that a step sends. -/
def answerIn (acts : List Act) : Option Bytes :=
  acts.findSome? (fun a => match a with
    | .sent msg => some msg
    | _ => none)

/-- The node at the other end of the network. -/
def answers (S : Suite) (A : Aead) (keys : Keys) (e : Endpoint) (out : Outside) (msg : Bytes) : Option Bytes :=
  (e.step S A keys (.datagram msg out)).bind (fun ea => answerIn ea.2)

section Joining

variable {S : Suite} {A : Aead} {keys : Keys} {si ei : Key} {index : UInt32} {ts : UInt64} {e : Endpoint} {out : Outside}
  {slot : Slot}

/-- The exchange that the client makes of the answer for a slot. -/
def exchanged (S : Suite) (si sr ei er : Key) (ts : UInt64) (slot : Slot) : Exchange :=
  let result := (finished S si sr ei er ts).finalize S
  { result
    session := { Session.new with
      peerIndex := UInt32.ofNat slot
      send := { CipherState.new with key := result.sendKey }
      recv := { RecvState.new with key := result.recvKey }
      bound := true }
    daemonIndex := UInt32.ofNat slot }

/-- An exchange with a node that has a place for it. -/
theorem exchangeWith_ok (hS : S.Laws) (hi : InStep e.tables) (hn : NonzeroSecrets S si keys.secretStatic ei out.ephSecret)
    (hp : e.hs.position=some slot) (hsend : ∀msg,out.send msg=true) :
    exchangeWith S (answers S A keys e out) (KeyPair.fromSecret S si) (KeyPair.fromSecret S keys.secretStatic).pub keys.sigPub
      index ts ei=.ok (exchanged S si keys.secretStatic ei out.ephSecret ts slot) := by
  have ha := agreement S si keys.secretStatic ei out.ephSecret keys.sigPub index (UInt32.ofNat slot) ts (fixed 16 [])
    Handshake.zeroCookie hS hn.es hn.ss hn.ee hn.se
  have hstep := @step_sent S A keys e out hi hS si ei index ts (fixed 16 []) slot hn hp (hsend _)
  have hfields := sentMsg2_fields S si keys.secretStatic ei out.ephSecret keys.sigPub index (UInt32.ofNat slot) ts
    Handshake.zeroCookie hS
  have hanswer : answers S A keys e out (sentMsg1 S si keys.secretStatic ei keys.sigPub index ts (fixed 16 []))=
      some (sentMsg2 S si keys.secretStatic ei out.ephSecret keys.sigPub index (UInt32.ofNat slot) ts
        Handshake.zeroCookie) := by
    rw [answers,hstep]
    rfl
  rw [exchangeWith,ha.writes1]
  dsimp only
  rw [hanswer]
  dsimp only
  rw [readAnswer,if_neg (not_not.mpr hfields.length),ha.reads2]
  dsimp only
  rw [ha.slotIndex]
  rfl

theorem exchanged_fresh (S : Suite) (si sr ei er : Key) (ts : UInt64) (slot : Slot) :
    (exchanged S si sr ei er ts slot).session.send.counter=0 := rfl

theorem setBound_frame (e : Endpoint) (idx : UInt32) : ∃sessions,e.setBound idx={ e with sessions } := by
  rw [Endpoint.setBound]
  cases e.sessions.lookup idx <;> exact ⟨_,rfl⟩

/-- The binding frame of a fresh exchange is taken in, and the client is joined. -/
theorem binding_joins (hA : A.Correct) (e : Endpoint) (si ei : Key) (ts : UInt64) (er : Key) (now later : UInt64)
    (bindOut : Outside) (slot : Slot) (sign : Bytes → Bytes) (certWire : Bytes) (cert : Cert)
    (hparse : parseCert certWire=.ok cert) (hfit : 2+certWire.length+lenBindingSig ≤ 4096)
    (hlen : ∀msg,(sign msg).length=lenBindingSig)
    (hok : bindSession S.toCrypto (certView cert)
      (sign (domainBinding::(agreed S si keys.secretStatic ei er ts now).handshakeHash.toList))
      (agreed S si keys.secretStatic ei er ts now).handshakeHash.toList
      (agreed S si keys.secretStatic ei er ts now).peerStatic.toList keys.caPubs bindOut.now=.ok ()) :
    let ex := exchanged S si keys.secretStatic ei er ts slot
    ∃pkt e₂ call,sendBinding A ex sign certWire=(.ok pkt,sealing ex.session 1) ∧
      (e.commit slot (agreed S si keys.secretStatic ei er ts now) later).step S A keys (.datagram pkt bindOut)=
        some (e₂,[.opened (UInt32.ofNat slot),.bound call]) ∧
      Joined A e₂.sessions (sealing ex.session 1) ∧
      e₂.daemon={ e.daemon with certs := e.daemon.certs++[(cert.sigPubkey,certWire)] } ∧ e₂.mem=e.mem ∧
      e₂.disk=e.disk := by
  intro ex
  let ag := agreed S si keys.secretStatic ei er ts now
  let rx := admittedSession (UInt32.ofNat slot) 0 ag.sendKey ag.recvKey ag.handshakeHash later
  let e₁ := e.commit slot ag later
  have hf : e₁.sessions.lookup ex.session.peerIndex=some rx := commit_lookup e slot ag later
  have hpt : (bindingPt sign ex.result.handshakeHash certWire).length ≤ 4096 := by
    rw [bindingPt,List.length_append,List.length_append,beBytes_length,hlen]
    exact hfit
  have hfresh : ex.session.send.counter < rekeyAfterMessages := by
    rw [exchanged_fresh]
    decide
  obtain ⟨pkt,hpkt,hsent⟩ := sendSealed_ok (A := A) hA hpt hfresh
  have htake : rx.recv.window.check (headerCounter pkt)=(true,⟨0,1⟩) := by
    rw [hsent.counter,exchanged_fresh]
    exact check_of_zero _ rfl 0
  have hstep := @step_unbound S A keys e₁ bindOut pkt _ hA ex.session rx hsent.seals hpt rfl hf rfl (by rw [htake])
  rw [htake] at hstep
  dsimp only at hstep
  let heard := e₁.heard ex.session.peerIndex rx ⟨0,1⟩
  have hbound := @handleBinding_bound S keys heard certWire (sign (domainBinding::ag.handshakeHash.toList)) cert
    ag.handshakeHash ag.peerStatic bindOut.now (UInt32.ofNat slot) slot (by omega) (hlen _) hparse
    (Function.update_self _ _ _) hok
  have hhandled : heard.handleBinding S keys bindOut.now (bindingPt sign ex.result.handshakeHash certWire)
      rx.handshakeHash rx.localIndex ex.session.peerIndex=_ := hbound
  rw [hhandled,Option.map_some] at hstep
  have hrx : heard.sessions.lookup (UInt32.ofNat slot)=some { rx with recv := { rx.recv with window := ⟨0,1⟩ } } :=
    lookup_put_self _ _ _ (slot_range slot)
  have hset : (heard.setBound (UInt32.ofNat slot)).sessions.lookup (UInt32.ofNat slot)=
      some { { rx with recv := { rx.recv with window := ⟨0,1⟩ } } with bound := true } := by
    rw [Endpoint.setBound,hrx]
    exact lookup_put_self _ _ _ (slot_range slot)
  obtain ⟨sessions,hframe⟩ := setBound_frame heard (UInt32.ofNat slot)
  refine ⟨pkt,_,_,hpkt,hstep,⟨_,[0],hset,rfl,rfl,.inl ⟨rfl,by simp⟩,?_⟩,?_,?_,?_⟩
  · intro c hc
    rw [List.mem_singleton.mp hc,@sealing_counter ex.session 1 (by rw [exchanged_fresh]; decide),exchanged_fresh]
    decide
  · rw [hframe]
    rfl
  · rw [hframe]
    rfl
  · rw [hframe]
    rfl

/-- A client whose certificate is valid is joined by its exchange and its binding frame, whatever else the node holds. -/
theorem client_joins (S : Suite) (hS : S.Laws) (A : Aead) (hA : A.Correct) (keys : Keys) (e : Endpoint)
    (hi : InStep e.tables) (si ei : Key) (index : UInt32) (ts : UInt64) (out bindOut : Outside) (slot : Slot)
    (hn : NonzeroSecrets S si keys.secretStatic ei out.ephSecret) (hp : e.hs.position=some slot)
    (hsend : ∀msg,out.send msg=true) (sign : Bytes → Bytes) (certWire : Bytes) (cert : Cert)
    (hparse : parseCert certWire=.ok cert) (hfit : 2+certWire.length+lenBindingSig ≤ 4096)
    (hkex : cert.kexPubkey=(KeyPair.fromSecret S si).pub.toList)
    (hvalid : validateCert S.toCrypto (certView cert) keys.caPubs bindOut.now=.ok ())
    (hlen : ∀msg,(sign msg).length=lenBindingSig)
    (hsigns : ∀hash : Key,verifySigned S.toCrypto domainBinding hash.toList (sign (domainBinding::hash.toList))
      cert.sigPubkey=true) :
    ∃ex e₁ acts pkt e₂ call,
      exchangeWith S (answers S A keys e out) (KeyPair.fromSecret S si) (KeyPair.fromSecret S keys.secretStatic).pub
        keys.sigPub index ts ei=.ok ex ∧ ex.session.send.counter=0 ∧
      e.step S A keys (.datagram (sentMsg1 S si keys.secretStatic ei keys.sigPub index ts (fixed 16 [])) out)=
        some (e₁,acts) ∧
      sendBinding A ex sign certWire=(.ok pkt,sealing ex.session 1) ∧
      e₁.step S A keys (.datagram pkt bindOut)=some (e₂,[.opened (UInt32.ofNat slot),.bound call]) ∧
      Joined A e₂.sessions (sealing ex.session 1) ∧
      e₂.daemon={ e.daemon with certs := e.daemon.certs++[(cert.sigPubkey,certWire)] } ∧ e₂.mem=e.mem ∧
      e₂.disk=e.disk := by
  have hex := @exchangeWith_ok S A keys si ei index ts e out slot hS hi hn hp hsend
  have hstep := @step_sent S A keys e out hi hS si ei index ts (fixed 16 []) slot hn hp (hsend _)
  have hpeer : ¬(certView cert).kexPubkey≠(agreed S si keys.secretStatic ei out.ephSecret ts out.now).peerStatic.toList :=
    not_not.mpr hkex
  have hok : bindSession S.toCrypto (certView cert)
      (sign (domainBinding::(agreed S si keys.secretStatic ei out.ephSecret ts out.now).handshakeHash.toList))
      (agreed S si keys.secretStatic ei out.ephSecret ts out.now).handshakeHash.toList
      (agreed S si keys.secretStatic ei out.ephSecret ts out.now).peerStatic.toList keys.caPubs bindOut.now=.ok () := by
    rw [bindSession,hvalid]
    dsimp only
    rw [if_neg hpeer,if_neg (by rw [certView]; simp [hsigns])]
  obtain ⟨pkt,e₂,call,hrest⟩ := @binding_joins S A keys hA e si ei ts out.ephSecret out.now out.later bindOut slot sign
    certWire cert hparse hfit hlen hok
  exact ⟨_,_,_,pkt,e₂,call,hex,exchanged_fresh _ _ _ _ _ _ _,hstep,hrest⟩

end Joining

end Bolina.Client
