import Bolina.Control.Connection
import Bolina.Control.EventCursor

namespace Bolina.Control

open ListSearch Utf8

/-- What the listener gives: nothing, an error, or a client with what becomes of its
`set_nonblocking` and of a reply that refuses it. -/
inductive AcceptOutcome where
  | wouldBlock
  | failed
  | client (nonblocking : Bool) (sent : Option Nat)

def tableFull : HttpReply := (503,ascii "table full")

/-- The control plane of the node, with its counter of requests and what they may touch. -/
structure Plane where
  clients : List Connection
  requests : Nat
  ctx : RouteCtx

def acceptClient (clients : List Connection) : AcceptOutcome → Except ConnError (List Connection)
  | .wouldBlock => .ok clients
  | .failed => .error .Accept
  | .client nonblocking sent =>
    if maxClients ≤ clients.length then (Connection.new.writeResponse tableFull sent).1.map (fun _ => clients)
    else if nonblocking=false then .error .SetNonblocking
    else .ok (clients++[Connection.new])

/-- Every client is polled, and those that fail or close are removed; `none`: a panic. -/
def advance : List (Connection × ClientIo) → Option (List (Connection × ClientIo))
  | [] => some []
  | (c,io)::rest =>
    match c.pollReadable io.late io.read with
    | none => none
    | some (.error _) => advance rest
    | some (.ok c') => (advance rest).map (fun kept => if c'.state=.Closing then kept else (c',io)::kept)

/-- The clients with what their sockets do, by their places in the table. -/
def withIo (clients : List Connection) (io : Nat → ClientIo) : List (Connection × ClientIo) :=
  clients.zipIdx.map (fun p => (p.1,io p.2))

def pollTick (clients : List Connection) (accept : AcceptOutcome) (io : Nat → ClientIo) :
    Option (Except ConnError (List (Connection × ClientIo))) :=
  match acceptClient clients accept with
  | .error e => some (.error e)
  | .ok table => (advance (withIo table io)).map .ok

/-- The loop over the clients that are to be written to; the first error ends it. -/
def serve : List (Connection × ClientIo) → Plane → Except ConnError Plane
  | [],p => .ok p
  | (c,io)::rest,p =>
    if c.state=.Writing then
      let r := routeHttp c.buf p.ctx
      match (c.writeResponse r.1 io.sent).1 with
      | .error e => .error e
      | .ok c' => serve rest ⟨p.clients++[c'],p.requests+1,r.2⟩
    else serve rest { p with clients := p.clients++[c] }

/-- An error ends the loop of the node, and so does a panic (`none`). -/
def Plane.pollControl (p : Plane) (accept : AcceptOutcome) (io : Nat → ClientIo) :
    Option (Except ConnError Plane) :=
  match pollTick p.clients accept io with
  | none => none
  | some (.error e) => some (.error e)
  | some (.ok kept) => some (serve kept { p with clients := [] })

/-- The connection is to be written to in this pass. -/
def Due (c : Connection) (io : ClientIo) : Prop :=
  io.late=false ∧
    ((c.state=.Writing ∧ (io.read=.wouldBlock ∨ ∃bytes,io.read=.data bytes)) ∨
      (c.state=.ReadingHeaders ∧ ∃bytes,io.read=.data bytes ∧ Covered (c.buf++bytes)))

/-- The read of this pass brings a head whose length overflows. -/
def Overruns (c : Connection) (io : ClientIo) : Prop :=
  io.late=false ∧ c.state=.ReadingHeaders ∧ ∃bytes,io.read=.data bytes ∧ Overflows (c.buf++bytes)

/-- How the poll of a client can end. -/
inductive Polled (c : Connection) (io : ClientIo) : Option (Except ConnError Connection) → Prop where
  | refused (e : ConnError) (hd : ¬Due c io) (ho : ¬Overruns c io) : Polled c io (some (.error e))
  | panicked (ho : Overruns c io) : Polled c io none
  | due (c' : Connection) (hs : c'.state=.Writing) (hd : Due c io) (ho : ¬Overruns c io) :
      Polled c io (some (.ok c'))
  | waiting (c' : Connection) (hs : c'.state≠.Writing) (hd : ¬Due c io) (ho : ¬Overruns c io) :
      Polled c io (some (.ok c'))

theorem due_read {c : Connection} {io : ClientIo} (h : Due c io) :
    io.read=.wouldBlock ∨ ∃bytes,io.read=.data bytes := by
  cases h.2 with
  | inl hw => exact hw.2
  | inr hr =>
    obtain ⟨_,bytes,hread,_⟩ := hr
    exact .inr ⟨bytes,hread⟩

/-- A client that is not writing is due through its head alone. -/
theorem due_head {c : Connection} {io : ClientIo} (h : Due c io) (hs : c.state≠.Writing) :
    c.state=.ReadingHeaders ∧ ∃bytes,io.read=.data bytes ∧ Covered (c.buf++bytes) := by
  cases h.2 with
  | inl hw => exact absurd hw.1 hs
  | inr hr => exact hr

section Data

variable {c : Connection} {bytes : Bytes} {sent : Option Nat}

theorem due_data (hr : c.state=.ReadingHeaders) : Due c ⟨false,.data bytes,sent⟩ ↔ Covered (c.buf++bytes) := by
  constructor
  · intro h
    obtain ⟨_,bytes',hread,hc⟩ := due_head h (by rw [hr]; simp)
    cases hread
    exact hc
  · intro hc
    exact ⟨rfl,.inr ⟨hr,bytes,rfl,hc⟩⟩

theorem overruns_data (hr : c.state=.ReadingHeaders) :
    Overruns c ⟨false,.data bytes,sent⟩ ↔ Overflows (c.buf++bytes) := by
  constructor
  · intro h
    obtain ⟨_,_,bytes',hread,ho⟩ := h
    cases hread
    exact ho
  · intro ho
    exact ⟨rfl,hr,bytes,rfl,ho⟩

/-- A read of the head: it goes on, is refused for its size, or is complete. -/
theorem head_polled (hr : c.state=.ReadingHeaders) :
    Polled c ⟨false,.data bytes,sent⟩ (c.pollReadable false (.data bytes)) := by
  cases hterm : findSub terminator (c.buf++bytes) with
  | none =>
    have hd : ¬Due c ⟨false,.data bytes,sent⟩ := by
      rw [due_data hr]
      intro hc
      obtain ⟨pos,hpos⟩ := covered_head hc
      rw [hterm] at hpos
      cases hpos
    have ho : ¬Overruns c ⟨false,.data bytes,sent⟩ := by
      rw [overruns_data hr]
      intro ho
      obtain ⟨pos,hpos⟩ := overflows_head ho
      rw [hterm] at hpos
      cases hpos
    by_cases hslow : Slow (c.buf++bytes)
    · rw [poll_slow hr hslow]
      exact .refused _ hd ho
    · rw [poll_quiet hr ⟨hslow,hterm⟩]
      exact .waiting _ (by simp [hr]) hd ho
  | some pos =>
    have hend := headDone_end hterm
    rw [poll_head hr hterm]
    generalize headDone (c.buf++bytes) (pos+4)=result at hend
    cases hend with
    | refused e hc ho => exact .refused e (by rwa [due_data hr]) (by rwa [overruns_data hr])
    | overflow _ ho => exact .panicked ((overruns_data hr).mpr ho)
    | short len hc ho => exact .waiting _ (by simp) (by rwa [due_data hr]) (by rwa [overruns_data hr])
    | covered declared hc ho => exact .due _ rfl ((due_data hr).mpr hc) (by rwa [overruns_data hr])

end Data

theorem poll_polled (c : Connection) (io : ClientIo) : Polled c io (c.pollReadable io.late io.read) := by
  obtain ⟨late,read,sent⟩ := io
  cases late with
  | true => exact .refused _ (fun h => absurd h.1 (by simp)) (fun h => absurd h.1 (by simp))
  | false =>
    cases read with
    | eof =>
      have hd : ¬Due c ⟨false,.eof,sent⟩ := fun h => by simpa using due_read h
      have ho : ¬Overruns c ⟨false,.eof,sent⟩ := fun h => by simpa using h.2.2
      exact .waiting _ (by simp) hd ho
    | failed =>
      have hd : ¬Due c ⟨false,.failed,sent⟩ := fun h => by simpa using due_read h
      have ho : ¬Overruns c ⟨false,.failed,sent⟩ := fun h => by simpa using h.2.2
      exact .refused _ hd ho
    | wouldBlock =>
      have ho : ¬Overruns c ⟨false,.wouldBlock,sent⟩ := fun h => by simpa using h.2.2
      by_cases hs : c.state=.Writing
      · exact .due c hs ⟨rfl,.inl ⟨hs,.inl rfl⟩⟩ ho
      · have hd : ¬Due c ⟨false,.wouldBlock,sent⟩ := fun h => by simpa using (due_head h hs).2
        exact .waiting c hs hd ho
    | data bytes =>
      by_cases hr : c.state=.ReadingHeaders
      · exact head_polled hr
      · have ho : ¬Overruns c ⟨false,.data bytes,sent⟩ := fun h => hr h.2.1
        have hpoll : c.pollReadable false (.data bytes)=some (.ok { c with buf := c.buf++bytes }) := poll_behind hr
        dsimp only
        rw [hpoll]
        by_cases hs : c.state=.Writing
        · exact .due _ hs ⟨rfl,.inl ⟨hs,.inr ⟨bytes,rfl⟩⟩⟩ ho
        · exact .waiting _ hs (fun h => hr (due_head h hs).1) ho

/-- What is left of a client after a pass. -/
def ClientSlot.client : ClientSlot → Option Connection
  | .live c => some c
  | _ => none

/-- What every client is after a pass, each by its own socket. -/
def fates (xs : List (Connection × ClientIo)) : List Connection :=
  xs.filterMap (fun x => ((ClientSlot.live x.1).pass x.2).1.client)

/-- The buffers with which the router is called in a pass. -/
def calls (xs : List (Connection × ClientIo)) : List Bytes :=
  xs.filterMap (fun x => ((ClientSlot.live x.1).pass x.2).2)

/-- The plane behind a pass in which no client harms another. -/
def Plane.behind (p : Plane) (xs : List (Connection × ClientIo)) : Plane :=
  ⟨p.clients++fates xs,p.requests+(calls xs).length,(calls xs).foldl (fun ctx buf => (routeHttp buf ctx).2) p.ctx⟩

/-- The client brings no head that overflows, and takes the reply that is due to it. -/
def Calm (x : Connection × ClientIo) : Prop := ¬Overruns x.1 x.2 ∧ (Due x.1 x.2 → x.2.sent=none)

section Round

variable {c c' : Connection} {io : ClientIo} {xs : List (Connection × ClientIo)}

theorem behind_nil (p : Plane) : p.behind []=p := by
  simp [Plane.behind,fates,calls]

theorem behind_refused {e : ConnError} (h : c.pollReadable io.late io.read=some (.error e)) (p : Plane) :
    p.behind ((c,io)::xs)=p.behind xs := by
  simp [Plane.behind,fates,calls,ClientSlot.pass,ClientSlot.client,h]

theorem behind_closing (h : c.pollReadable io.late io.read=some (.ok c')) (hs : c'.state=.Closing) (p : Plane) :
    p.behind ((c,io)::xs)=p.behind xs := by
  simp [Plane.behind,fates,calls,ClientSlot.pass,ClientSlot.client,h,hs]

theorem behind_waiting (h : c.pollReadable io.late io.read=some (.ok c')) (hc : c'.state≠.Closing)
    (hw : c'.state≠.Writing) (p : Plane) :
    p.behind ((c,io)::xs)=({ p with clients := p.clients++[c'] } : Plane).behind xs := by
  simp [Plane.behind,fates,calls,ClientSlot.pass,ClientSlot.client,h,hc,hw]

/-- A client that is written to: its router call comes first. -/
theorem behind_due (h : c.pollReadable io.late io.read=some (.ok c')) (hw : c'.state=.Writing) (hsent : io.sent=none)
    (p : Plane) : p.behind ((c,io)::xs)=
      Plane.behind ⟨p.clients++[{ c' with state := .Closing }],p.requests+1,(routeHttp c'.buf p.ctx).2⟩ xs := by
  simp [Plane.behind,fates,calls,ClientSlot.pass,ClientSlot.client,h,hw,hsent,Nat.add_assoc,Nat.add_comm]

theorem serve_due (hw : c'.state=.Writing) (hsent : io.sent=none) (p : Plane) :
    serve ((c',io)::xs) p=
      serve xs ⟨p.clients++[{ c' with state := .Closing }],p.requests+1,(routeHttp c'.buf p.ctx).2⟩ := by
  rw [serve,if_pos hw]
  simp only [Connection.writeResponse,hsent]

theorem serve_unsent {k : Nat} (hw : c'.state=.Writing) (hsent : io.sent=some k) (p : Plane) :
    serve ((c',io)::xs) p=.error .Write := by
  rw [serve,if_pos hw]
  simp only [Connection.writeResponse,hsent]

theorem serve_waiting (hw : c'.state≠.Writing) (p : Plane) :
    serve ((c',io)::xs) p=serve xs { p with clients := p.clients++[c'] } := by
  rw [serve,if_neg hw]

/-- Calm clients are served, each as its own socket has it. -/
theorem round_calm (p : Plane) (h : ∀x∈xs,Calm x) :
    ∃kept,advance xs=some kept ∧ serve kept p=.ok (p.behind xs) := by
  induction xs generalizing p with
  | nil => exact ⟨[],rfl,by rw [behind_nil]; rfl⟩
  | cons x xs ih =>
    obtain ⟨c,io⟩ := x
    obtain ⟨hover,hsent⟩ := h (c,io) List.mem_cons_self
    have hrest : ∀x∈xs,Calm x := fun x hx => h x (List.mem_cons_of_mem _ hx)
    have hend := poll_polled c io
    rw [advance]
    cases hpoll : c.pollReadable io.late io.read with
    | none =>
      rw [hpoll] at hend
      cases hend with
      | panicked ho => exact absurd ho hover
    | some result =>
      rw [hpoll] at hend
      cases hend with
      | refused e _ _ =>
        rw [behind_refused hpoll]
        exact ih p hrest
      | due c' hw hd _ =>
        obtain ⟨kept,hkept,hserve⟩ := ih ⟨p.clients++[{ c' with state := .Closing }],p.requests+1,
          (routeHttp c'.buf p.ctx).2⟩ hrest
        refine ⟨(c',io)::kept,?_,?_⟩
        · simp [hkept,hw]
        · rw [serve_due hw (hsent hd),behind_due hpoll hw (hsent hd)]
          exact hserve
      | waiting c' hw _ _ =>
        by_cases hc : c'.state=.Closing
        · obtain ⟨kept,hkept,hserve⟩ := ih p hrest
          refine ⟨kept,?_,?_⟩
          · simp [hkept,hc]
          · rw [behind_closing hpoll hc]
            exact hserve
        · obtain ⟨kept,hkept,hserve⟩ := ih { p with clients := p.clients++[c'] } hrest
          refine ⟨(c',io)::kept,?_,?_⟩
          · simp [hkept,hc]
          · rw [serve_waiting hw,behind_waiting hpoll hc hw]
            exact hserve

/-- A pass that ends well has met calm clients only. -/
theorem calm_round {kept : List (Connection × ClientIo)} {p p' : Plane} (hk : advance xs=some kept)
    (hs : serve kept p=.ok p') : ∀x∈xs,Calm x := by
  induction xs generalizing kept p with
  | nil => simp
  | cons x xs ih =>
    obtain ⟨c,io⟩ := x
    have hend := poll_polled c io
    rw [advance] at hk
    cases hpoll : c.pollReadable io.late io.read with
    | none =>
      rw [hpoll] at hk
      cases hk
    | some result =>
      rw [hpoll] at hk hend
      cases hend with
      | refused e hd ho =>
        exact List.forall_mem_cons.mpr ⟨⟨ho,fun h => absurd h hd⟩,ih hk hs⟩
      | due c' hw hd ho =>
        obtain ⟨kept',hk',he⟩ := Option.map_eq_some_iff.mp hk
        rw [if_neg (by rw [hw]; simp)] at he
        rw [← he] at hs
        cases hsent : io.sent with
        | none =>
          rw [serve_due hw hsent] at hs
          exact List.forall_mem_cons.mpr ⟨⟨ho,fun _ => hsent⟩,ih hk' hs⟩
        | some k =>
          rw [serve_unsent hw hsent] at hs
          cases hs
      | waiting c' hw hd ho =>
        obtain ⟨kept',hk',he⟩ := Option.map_eq_some_iff.mp hk
        refine List.forall_mem_cons.mpr ⟨⟨ho,fun h => absurd h hd⟩,?_⟩
        by_cases hc : c'.state=.Closing
        · rw [if_pos hc] at he
          rw [he] at hk'
          exact ih hk' hs
        · rw [if_neg hc] at he
          rw [← he,serve_waiting hw] at hs
          exact ih hk' hs

end Round

/-- The clients of a pass: one that there is no place for, or that stays blocking, is not
among them. -/
def admitted (clients : List Connection) : AcceptOutcome → List Connection
  | .client true _ => if maxClients ≤ clients.length then clients else clients++[Connection.new]
  | _ => clients

/-- The node goes on, and every client is what its own socket makes of it. -/
def Unharmed (p : Plane) (accept : AcceptOutcome) (io : Nat → ClientIo) : Prop :=
  p.pollControl accept io=
    some (.ok (({ p with clients := [] } : Plane).behind (withIo (admitted p.clients accept) io)))

/-- What no client of the pass may do. -/
structure Harmless (p : Plane) (accept : AcceptOutcome) (io : Nat → ClientIo) : Prop where
  listener : accept≠.failed
  refusal : ∀nonblocking sent,accept=.client nonblocking sent → maxClients ≤ p.clients.length → sent=none
  admission : ∀nonblocking sent,accept=.client nonblocking sent → p.clients.length < maxClients → nonblocking=true
  calm : ∀x∈withIo (admitted p.clients accept) io,Calm x

theorem acceptClient_ok {p : Plane} {accept : AcceptOutcome} {io : Nat → ClientIo} (h : Harmless p accept io) :
    acceptClient p.clients accept=.ok (admitted p.clients accept) := by
  cases accept with
  | wouldBlock => rfl
  | failed => exact absurd rfl h.listener
  | client nonblocking sent =>
    rw [acceptClient]
    by_cases hfull : maxClients ≤ p.clients.length
    · have hsent := h.refusal nonblocking sent rfl hfull
      have hsame : admitted p.clients (.client nonblocking sent)=p.clients := by
        cases nonblocking with
        | true => exact if_pos hfull
        | false => rfl
      rw [if_pos hfull,hsame,hsent]
      rfl
    · have hnon := h.admission nonblocking sent rfl (Nat.lt_of_not_le hfull)
      rw [if_neg hfull,if_neg (by rw [hnon]; decide),hnon,admitted,if_neg hfull]

theorem ok_acceptClient {clients table : List Connection} {accept : AcceptOutcome}
    (h : acceptClient clients accept=.ok table) :
    accept≠.failed ∧ (∀nonblocking sent,accept=.client nonblocking sent → maxClients ≤ clients.length → sent=none) ∧
      (∀nonblocking sent,accept=.client nonblocking sent → clients.length < maxClients → nonblocking=true) ∧
      table=admitted clients accept := by
  cases accept with
  | wouldBlock =>
    refine ⟨by simp,by simp,by simp,?_⟩
    cases h
    rfl
  | failed => cases h
  | client nonblocking sent =>
    rw [acceptClient] at h
    by_cases hfull : maxClients ≤ clients.length
    · rw [if_pos hfull] at h
      have hlt : ¬clients.length < maxClients := Nat.not_lt.mpr hfull
      cases sent with
      | some k => cases h
      | none =>
        refine ⟨by simp,by simp,by simp [hlt],?_⟩
        cases h
        cases nonblocking with
        | true => exact (if_pos hfull).symm
        | false => rfl
    · rw [if_neg hfull] at h
      cases nonblocking with
      | false => cases h
      | true =>
        refine ⟨by simp,by simp [hfull],by simp,?_⟩
        rw [if_neg (by decide)] at h
        rw [admitted,if_neg hfull]
        exact (Except.ok.inj h).symm

/-- A pass leaves the node going, and every client to its own socket, exactly when the
listener gives no error, the refusal of a client for want of a place can be sent, a client
that comes in becomes nonblocking, no head declares a length that overflows, and every
reply that is due can be sent. -/
theorem unharmed_iff (p : Plane) (accept : AcceptOutcome) (io : Nat → ClientIo) :
    Unharmed p accept io ↔ Harmless p accept io := by
  constructor
  · intro h
    rw [Unharmed,Plane.pollControl,pollTick] at h
    cases haccept : acceptClient p.clients accept with
    | error e =>
      rw [haccept] at h
      cases h
    | ok table =>
      obtain ⟨hlistener,hrefusal,hadmission,htable⟩ := ok_acceptClient haccept
      rw [haccept,htable] at h
      cases hadvance : advance (withIo (admitted p.clients accept) io) with
      | none =>
        simp only [hadvance,Option.map_none] at h
        cases h
      | some kept =>
        simp only [hadvance,Option.map_some] at h
        exact ⟨hlistener,hrefusal,hadmission,calm_round hadvance (Option.some.inj h)⟩
  · intro h
    obtain ⟨kept,hkept,hserve⟩ := round_calm { p with clients := [] } h.calm
    rw [Unharmed,Plane.pollControl,pollTick,acceptClient_ok h]
    simp only [hkept,Option.map_some,hserve]

def fullPlane : Plane := ⟨List.replicate maxClients .new,0,sampleCtx⟩

def onePlane : Plane := ⟨[.new],0,sampleCtx⟩

/-- A head whose length is the greatest `usize`. -/
def hugeHead : Bytes := getLine healthzPath++(crlf++(ascii "Content-Length: 18446744073709551615"++terminator))

/-- A client that is refused and gone, one that is gone before its reply, one that went
before it was accepted, and one that asks for too much: each ends the node. -/
theorem clients_harm :
    fullPlane.pollControl (.client true (some 0)) (fun _ => ⟨false,.wouldBlock,none⟩)=some (.error .Write) ∧
      onePlane.pollControl .wouldBlock (fun _ => ⟨false,.data (sampleGet eventsPath),some 0⟩)=some (.error .Write) ∧
      onePlane.pollControl .failed (fun _ => ⟨false,.wouldBlock,none⟩)=some (.error .Accept) ∧
      onePlane.pollControl .wouldBlock (fun _ => ⟨false,.data hugeHead,none⟩)=none ∧
      ¬Unharmed fullPlane (.client true (some 0)) (fun _ => ⟨false,.wouldBlock,none⟩) ∧
      ¬Unharmed onePlane .wouldBlock (fun _ => ⟨false,.data (sampleGet eventsPath),some 0⟩) ∧
      ¬Unharmed onePlane .wouldBlock (fun _ => ⟨false,.data hugeHead,none⟩) := by
  have hrefused : fullPlane.pollControl (.client true (some 0)) (fun _ => ⟨false,.wouldBlock,none⟩)=
      some (.error .Write) := rfl
  have hpoll : Connection.new.pollReadable false (.data (sampleGet eventsPath))=
      some (.ok ⟨.Writing,sampleGet eventsPath,none⟩) := by decide +kernel
  have hgone : onePlane.pollControl .wouldBlock (fun _ => ⟨false,.data (sampleGet eventsPath),some 0⟩)=
      some (.error .Write) := by
    simp [Plane.pollControl,pollTick,acceptClient,withIo,onePlane,advance,hpoll,serve,Connection.writeResponse]
  have hhuge : Connection.new.pollReadable false (.data hugeHead)=none := by decide +kernel
  have hpanic : onePlane.pollControl .wouldBlock (fun _ => ⟨false,.data hugeHead,none⟩)=none := by
    simp [Plane.pollControl,pollTick,acceptClient,withIo,onePlane,advance,hhuge]
  refine ⟨hrefused,hgone,rfl,hpanic,?_,?_,?_⟩
  · intro h
    rw [Unharmed,hrefused] at h
    cases h
  · intro h
    rw [Unharmed,hgone] at h
    cases h
  · intro h
    rw [Unharmed,hpanic] at h
    cases h

end Bolina.Control
