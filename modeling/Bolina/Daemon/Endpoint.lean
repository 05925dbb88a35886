import Bolina.Daemon.Process
import Bolina.Evidence.LedgerEnvelope
import Bolina.Transport.Handshake
import Bolina.Transport.SessionTable

namespace Bolina

open Codec Intent State Transport Control BigEndian Noise
open Handshake (Slot HandshakeError processDatagram tHsIdleMs)
open Evidence (Hash)

/-- What a node reads of its key files. -/
structure Keys where
  secretStatic : Key
  sigPub : Key
  caPubs : List Bytes

/-- The daemon with its evidence ledger, its sessions and its handshakes. The three
tables of a peer share one index space. -/
structure Endpoint where
  daemon : Daemon
  mem : Evidence.Ledger
  sessions : SessionTable
  hs : Handshake.Table
  peerStatic : Slot → Option Key
  handshakeReleasedTotal : Nat
  disk : Disk

/-- A fresh daemon with the resources declared at boot and the grant ledger that was attached. -/
def Endpoint.boot (S : Suite) (keys : Keys) (resolver : Resolver) (ledger : Option GrantLedger) (disk : Disk) :
    Endpoint where
  daemon := { Daemon.new S.toCrypto keys.sigPub.toList with resolver,ledger }
  mem := Evidence.Ledger.new
  sessions := SessionTable.new
  hs := Handshake.Table.new
  peerStatic _ := none
  handshakeReleasedTotal := 0
  disk

/-- What a datagram gets from outside: two readings of the clock, the random bytes,
the answer of the socket and the outcomes of the file operations. -/
structure Outside where
  now : UInt64
  later : UInt64
  ephSecret : Key
  send : Bytes → Bool
  io : Io

/-- The arguments of a call of `bind_session`, and the session it was made for. -/
structure BindCall where
  index : UInt32
  cert : CertView
  bindSig : Bytes
  handshakeHash : Key
  peerStatic : Key
  nowMs : UInt64
  deriving DecidableEq

/-- What can be seen of a step from outside its tables, in the order it happens. -/
inductive Act where
  | sent (msg : Bytes)
  | committed (slot : Slot)
  | released (slot : Slot)
  | opened (index : UInt32)
  | bound (call : BindCall)
  deriving DecidableEq

def Endpoint.reject (e : Endpoint) (c : WireRejectClass) : Endpoint :=
  { e with daemon := { e.daemon with
      rejectedTotal := e.daemon.rejectedTotal+1
      wire := e.daemon.wire.bump c } }

/-- The parents of an envelope, in chunks of 32 bytes. -/
def chunks32 (parents : Bytes) : List Hash :=
  (List.range (parents.length/32)).map (fun i => fixed 32 (slice parents (32*i) 32))

section Machine

variable (S : Suite) (A : Aead) (keys : Keys)

/-- The gates in front of the dispatcher; true when the envelope goes on to it. -/
def Endpoint.gate (plain : Bytes) (e : Endpoint) : Bool × Endpoint :=
  match parseEnvelope plain with
  | .error _ => (false,e.reject .Parse)
  | .ok env =>
    if env.sender.length≠32 ∨ env.channelId.length≠32 then (false,e.reject .Parse)
    else
      match verifyEnvelope S.toCrypto env with
      | some ve => (false,e.reject (.ofVerify ve))
      | none =>
        if env.parents.length≠env.parentCount.toNat*32 then (false,e.reject .Parse)
        else
          let hash := S.blake2s plain
          match e.mem.findEnvelope (fixed 32 env.sender) (fixed 32 env.channelId) env.seq with
          | some existing => if existing=hash then (false,e) else (false,e.reject .VEquivocation)
          | none =>
            match e.mem.verifyEnvelopeAdmission hash (fixed 32 env.sender) (fixed 32 env.channelId) env.seq
                (chunks32 env.parents) with
            | (.error ve,mem) => (false,{ e with mem }.reject (.ofVerify ve))
            | (.ok _,mem) => (true,{ e with mem })

/-- `none` when the dispatch panics. -/
def Endpoint.handleEnvelope (io : Io) (now : UInt64) (plain : Bytes) (e : Endpoint) : Option Endpoint :=
  match e.gate S plain with
  | (false,e') => some e'
  | (true,e') =>
    (e'.daemon.dispatchEnvelope S.toCrypto io now plain e'.disk).map
      (fun dd => { e' with daemon := dd.1,disk := dd.2 })

def Endpoint.setBound (e : Endpoint) (receiverIdx : UInt32) : Endpoint :=
  match e.sessions.lookup receiverIdx with
  | some session => { e with sessions := e.sessions.put receiverIdx { session with bound := true } }
  | none => e

/-- `none` when the slot is out of the range of `peer_static` and the code panics. -/
def Endpoint.handleBinding (now : UInt64) (plain : Bytes) (handshakeHash : Key) (slot receiverIdx : UInt32)
    (e : Endpoint) : Option (Endpoint × List Act) :=
  if plain.length < 2+lenBindingSig then some (e.reject .Binding,[])
  else
    let certLen := beNat (plain.take 2)
    if plain.length < 2+certLen+lenBindingSig then some (e.reject .Binding,[])
    else
      let certWire := (plain.drop 2).take certLen
      let bindSig := (plain.drop (2+certLen)).take lenBindingSig
      match parseCert certWire with
      | .error _ => some (e.reject .Binding,[])
      | .ok cert =>
        if h : slot.toNat < Handshake.maxSessions then
          match e.peerStatic ⟨slot.toNat,h⟩ with
          | none => some (e,[])
          | some peer =>
            match bindSession S.toCrypto (certView cert) bindSig handshakeHash.toList peer.toList keys.caPubs now with
            | .error _ => some (e.reject .Binding,[])
            | .ok _ =>
              let e' := e.setBound receiverIdx
              some ({ e' with daemon := { e'.daemon with certs := e'.daemon.certs++[(cert.sigPubkey,certWire)] } },
                [.bound ⟨receiverIdx,certView cert,bindSig,handshakeHash,peer,now⟩])
        else none

/-- The buffer a datagram is opened into. -/
def ptBuf : Bytes := List.replicate 4096 0

def Endpoint.handleTransport (out : Outside) (pkt : Bytes) (e : Endpoint) : Option (Endpoint × List Act) :=
  if pkt.length < headerSize+16 then some (e,[])
  else
    let receiverIdx := be32 (slice pkt 4 4)
    match e.sessions.lookup receiverIdx with
    | none => some (e,[])
    | some session =>
      match session.open A pkt (headerCounter pkt) ptBuf with
      | (.error _,session') =>
        some ({ e with sessions := e.sessions.put receiverIdx session' }.reject .Transport,[])
      | (.ok (n,pt),session') =>
        let e' := { e with sessions := e.sessions.put receiverIdx session' }
        if session'.bound then
          (e'.handleEnvelope S out.io out.now (pt.take n)).map (fun e'' => (e'',[.opened receiverIdx]))
        else
          (e'.handleBinding S keys out.now (pt.take n) session'.handshakeHash session'.localIndex
            receiverIdx).map (fun ea => (ea.1,.opened receiverIdx::ea.2))

def Endpoint.handleHandshake (out : Outside) (pkt : Bytes) (e : Endpoint) : Option (Endpoint × List Act) :=
  match processDatagram S e.hs pkt keys.secretStatic keys.sigPub out.ephSecret out.send out.now with
  | none => none
  | some (.error .TableFull,hs,sent) =>
    some ({ e with
      hs
      daemon := { e.daemon with wire := e.daemon.wire.bump .HandshakeFull } },sent.map Act.sent)
  | some (.error _,hs,sent) => some ({ e with hs },sent.map Act.sent)
  | some (.ok slot,hs,sent) =>
    let acts := sent.map Act.sent++[.committed slot]
    match hs.slots slot with
    | none => some ({ e with hs },acts)
    | some s =>
      match e.sessions.admit (UInt32.ofNat slot) 0 s.sendKey s.recvKey s.handshakeHash out.later with
      | (.error _,sessions) => some ({ e with hs,sessions },acts)
      | (.ok _,sessions) =>
        some ({ e with hs,sessions,peerStatic := Function.update e.peerStatic slot (some s.peerStatic) },acts)

/-- The one place where a slot is released, in all three tables. -/
def Endpoint.releaseHsSlot (e : Endpoint) (idx : Slot) : Endpoint :=
  { e with
    hs := e.hs.releaseSlot idx
    sessions := e.sessions.release (UInt32.ofNat idx)
    peerStatic := Function.update e.peerStatic idx none }

/-- The sweep. The indices it frees come with the endpoint it leaves. -/
def Endpoint.releaseStaleSlots (now : UInt64) (e : Endpoint) : List Slot × Endpoint :=
  match e.hs.releaseStale now tHsIdleMs with
  | (freed,hs) =>
    let e' := freed.foldl Endpoint.releaseHsSlot { e with hs }
    (freed,{ e' with handshakeReleasedTotal := e'.handshakeReleasedTotal+freed.length })

def Endpoint.handleDatagram (out : Outside) (pkt : Bytes) (e : Endpoint) : Option (Endpoint × List Act) :=
  match pkt with
  | [] => some (e,[])
  | b::_ =>
    if b=1 then e.handleHandshake S keys out pkt
    else if b=4 then e.handleTransport S A keys out pkt
    else some (e,[])

/-- A datagram that arrives, or a sweep of the idle slots. -/
inductive Input where
  | datagram (pkt : Bytes) (out : Outside)
  | sweep (now : UInt64)

def Input.now : Input → UInt64
  | .datagram _ out => out.now
  | .sweep now => now

/-- `none` when the process ends in a panic. -/
def Endpoint.step (e : Endpoint) : Input → Option (Endpoint × List Act)
  | .datagram pkt out => e.handleDatagram S A keys out pkt
  | .sweep now => some ((e.releaseStaleSlots now).2,(e.releaseStaleSlots now).1.map Act.released)

/-- The acts of a run with their times, the newest first. -/
abbrev Log := List (UInt64 × Act)

/-- One input to a process that may have ended. -/
def advance (o : Option (Endpoint × Log)) (x : Input) : Option (Endpoint × Log) :=
  o.bind (fun el => (el.1.step S A keys x).map (fun ea => (ea.1,(ea.2.map (fun a => (x.now,a))).reverse++el.2)))

/-- The endpoint a run from a fresh daemon ends in, with the log of the run. -/
def runFrom (e : Endpoint) (xs : List Input) : Option (Endpoint × Log) := xs.foldl (advance S A keys) (some (e,[]))

variable {S A keys}

theorem mem_entries {now time : UInt64} {acts : List Act} {a : Act} :
    (time,a)∈(acts.map (fun a => (now,a))).reverse ↔ time=now ∧ a∈acts := by
  rw [List.mem_reverse,List.mem_map]
  constructor
  · intro hw
    obtain ⟨b,hb,he⟩ := hw
    cases he
    exact ⟨rfl,hb⟩
  · intro hw
    obtain ⟨rfl,ha⟩ := hw
    exact ⟨a,ha,rfl⟩

theorem advance_some {o : Option (Endpoint × Log)} {x : Input} {e' : Endpoint} {log' : Log}
    (h : advance S A keys o x=some (e',log')) :
    ∃e log acts,o=some (e,log) ∧ e.step S A keys x=some (e',acts) ∧
      log'=(acts.map (fun a => (x.now,a))).reverse++log := by
  obtain ⟨⟨e,log⟩,rfl,h⟩ := Option.bind_eq_some_iff.mp h
  obtain ⟨⟨e₁,acts⟩,hs,hl⟩ := Option.map_eq_some_iff.mp h
  cases hl
  exact ⟨e,log,acts,rfl,hs,rfl⟩

theorem runFrom_snoc {e e₁ e₂ : Endpoint} {xs : List Input} {x : Input} {log : Log} {acts : List Act}
    (h : runFrom S A keys e xs=some (e₁,log)) (hs : e₁.step S A keys x=some (e₂,acts)) :
    runFrom S A keys e (xs++[x])=some (e₂,(acts.map (fun a => (x.now,a))).reverse++log) := by
  rw [runFrom] at h
  rw [runFrom,List.foldl_append,h,List.foldl_cons,List.foldl_nil,advance,Option.bind_some,hs,Option.map_some]

/-- What holds at the start and is kept by every step holds at the end of every run. -/
theorem runFrom_invariant {P : Endpoint → Log → Prop} {e : Endpoint} (xs : List Input) (h0 : P e [])
    (hstep : ∀e log x e' acts,P e log → e.step S A keys x=some (e',acts) →
      P e' ((acts.map (fun a => (x.now,a))).reverse++log))
    (e' : Endpoint) (log' : Log) (h : runFrom S A keys e xs=some (e',log')) : P e' log' := by
  have hrun := @List.foldlRecOn _ _ (fun o => ∀e log,o=some (e,log) → P e log) xs (advance S A keys) (some (e,[]))
  refine hrun ?_ ?_ e' log' h
  · intro e₁ log₁ he
    cases he
    exact h0
  · intro o ho x _ e' log' he'
    obtain ⟨e,log,acts,rfl,hs,rfl⟩ := advance_some he'
    exact hstep e log x e' acts (ho e log rfl) hs

end Machine

end Bolina
