import Bolina.Control.RouteHttp

namespace Bolina.Control

open ListSearch Utf8

def slowlorisSize : Nat := 1024
def maxClients : Nat := 8

inductive ConnState where
  | ReadingHeaders
  | ReadingBody
  | Writing
  | Closing
  deriving DecidableEq,Repr

structure Connection where
  state : ConnState
  buf : Bytes
  contentLength : Option Nat
  deriving DecidableEq

def Connection.new : Connection := ⟨.ReadingHeaders,[],none⟩

inductive ConnError where
  | DeadlineExceeded
  | Slowloris
  | Read
  | InvalidUtf8
  | InvalidContentLength
  | Write
  | SetNonblocking
  | Accept
  deriving DecidableEq,Repr

/-- What a read of the socket gives: bytes, the end, nothing yet, or an error. -/
inductive ReadOutcome where
  | data (bytes : Bytes)
  | eof
  | wouldBlock
  | failed

def splitLf : Bytes → List Bytes
  | [] => [[]]
  | b::rest =>
    if b=lf then []::splitLf rest
    else
      match splitLf rest with
      | [] => [[b]]
      | line::lines => (b::line)::lines

def stripCr (line : Bytes) : Bytes := if line.getLast?=some cr then line.dropLast else line

/-- The lines of a text: each ends in a line feed, with or without a carriage return. -/
def textLines (bs : Bytes) : List Bytes :=
  (splitLf bs).dropLast.map stripCr++(splitLf bs).getLast?.toList.filter (fun line => line≠[])

def lengthNeedle : Bytes := ascii "content-length:"

/-- The first line that starts so in any case declares the length. No character outside
ASCII has a lower case among the letters of the needle. -/
def parseContentLength (headers : Bytes) : Except ConnError (Option Nat) :=
  if fromUtf8 headers=none then .error .InvalidUtf8
  else
    match (textLines headers).find? (fun line => lengthNeedle.isPrefixOf (line.map asciiLower)) with
    | none => .ok none
    | some line =>
      match (fromUtf8 (line.drop lengthNeedle.length)).bind (fun s => parseUsize (trim s)) with
      | none => .error .InvalidContentLength
      | some len => .ok (some len)

/-- What a complete head makes of a connection; `none` is the panic of the sum that overflows. -/
def headDone (buf : Bytes) (headersEnd : Nat) : Option (Except ConnError Connection) :=
  match parseContentLength (buf.take headersEnd) with
  | .error e => some (.error e)
  | .ok none => some (.ok ⟨.Writing,buf,none⟩)
  | .ok (some len) =>
    if 2^64 ≤ headersEnd+len then none
    else if buf.length < headersEnd+len then some (.ok ⟨.ReadingBody,buf,some len⟩)
    else some (.ok ⟨.Writing,buf,some len⟩)

/-- `late`: the deadline has passed. The body is not waited for: no state follows
`ReadingBody`. -/
def Connection.pollReadable (c : Connection) (late : Bool) (r : ReadOutcome) : Option (Except ConnError Connection) :=
  if late=true then some (.error .DeadlineExceeded)
  else
    match r with
    | .eof => some (.ok { c with state := .Closing })
    | .wouldBlock => some (.ok c)
    | .failed => some (.error .Read)
    | .data bytes =>
      let buf := c.buf++bytes
      if c.state≠.ReadingHeaders then some (.ok { c with buf })
      else if slowlorisSize ≤ buf.length ∧ findSub crlf buf=none then some (.error .Slowloris)
      else
        match findSub terminator buf with
        | none => some (.ok { c with buf })
        | some pos => headDone buf (pos+4)

def statusText (status : Nat) : Bytes :=
  if status=200 then ascii "OK"
  else if status=400 then ascii "Bad Request"
  else if status=403 then ascii "Forbidden"
  else if status=404 then ascii "Not Found"
  else if status=500 then ascii "Internal Server Error"
  else if status=501 then ascii "Not Implemented"
  else if status=503 then ascii "Service Unavailable"
  else ascii "Unknown"

/-- The bytes of a reply. -/
def response (reply : HttpReply) : Bytes :=
  ascii "HTTP/1.1 "++decimal reply.1++[sp]++statusText reply.1++ascii "\r\nContent-Length: "++
    decimal reply.2.length++ascii "\r\nConnection: close\r\n\r\n"++reply.2

/-- `sent`: how many of the bytes the socket takes before it fails, or all of them. -/
def Connection.writeResponse (c : Connection) (reply : HttpReply) (sent : Option Nat) :
    Except ConnError Connection × Bytes :=
  match sent with
  | none => (.ok { c with state := .Closing },response reply)
  | some k => (.error .Write,(response reply).take k)

/-- What the socket of a client does in one pass; `sent` is for the reply. -/
structure ClientIo where
  late : Bool
  read : ReadOutcome
  sent : Option Nat

/-- A place in the table of clients; `stopped`: the process has panicked. -/
inductive ClientSlot where
  | live (c : Connection)
  | removed
  | stopped
  deriving DecidableEq

/-- One pass over a client: a read, and the call of the router for a connection that is to
be written to. -/
def ClientSlot.pass (s : ClientSlot) (io : ClientIo) : ClientSlot × Option Bytes :=
  match s with
  | .live c =>
    match c.pollReadable io.late io.read with
    | none => (.stopped,none)
    | some (.error _) => (.removed,none)
    | some (.ok c') =>
      if c'.state=.Closing then (.removed,none)
      else if c'.state=.Writing then
        (if io.sent=none then .live { c' with state := .Closing } else .removed,some c'.buf)
      else (.live c',none)
  | s => (s,none)

/-- The size guard refuses the buffer. -/
def Slow (b : Bytes) : Prop := slowlorisSize ≤ b.length ∧ findSub crlf b=none

/-- The head is not complete and the size guard has nothing to refuse. -/
def Quiet (b : Bytes) : Prop := ¬Slow b ∧ findSub terminator b=none

/-- The buffer holds a head and as many bytes behind it as its first length line declares. -/
def Covered (b : Bytes) : Prop :=
  ∃pos declared,findSub terminator b=some pos ∧ parseContentLength (b.take (pos+4))=.ok declared ∧
    ∀len∈declared,pos+4+len < 2^64 ∧ pos+4+len ≤ b.length

/-- The first length line of the head takes its end out of the range of a `usize`. -/
def Overflows (b : Bytes) : Prop :=
  ∃pos len,findSub terminator b=some pos ∧ parseContentLength (b.take (pos+4))=.ok (some len) ∧ 2^64 ≤ pos+4+len

section Head

variable {c : Connection} {b bytes : Bytes} {pos : Nat}

/-- A head that is complete holds a CRLF. -/
theorem not_slow (h : findSub terminator b=some pos) : ¬Slow b := by
  intro hslow
  have hp := (findSub_some h).1
  exact findSub_none hslow.2 pos ((List.prefix_append crlf crlf).trans hp)

theorem poll_quiet (hs : c.state=.ReadingHeaders) (h : Quiet (c.buf++bytes)) :
    c.pollReadable false (.data bytes)=some (.ok { c with buf := c.buf++bytes }) := by
  obtain ⟨hslow,hterm⟩ := h
  rw [Slow] at hslow
  simp only [Connection.pollReadable,Bool.false_eq_true,if_false,hs,ne_eq,not_true_eq_false,if_neg hslow,hterm]

theorem poll_slow (hs : c.state=.ReadingHeaders) (h : Slow (c.buf++bytes)) :
    c.pollReadable false (.data bytes)=some (.error .Slowloris) := by
  rw [Slow] at h
  simp only [Connection.pollReadable,Bool.false_eq_true,if_false,hs,ne_eq,not_true_eq_false,if_pos h]

theorem poll_head (hs : c.state=.ReadingHeaders) (h : findSub terminator (c.buf++bytes)=some pos) :
    c.pollReadable false (.data bytes)=headDone (c.buf++bytes) (pos+4) := by
  have hslow := not_slow h
  rw [Slow] at hslow
  simp only [Connection.pollReadable,Bool.false_eq_true,if_false,hs,ne_eq,not_true_eq_false,if_neg hslow,h]

/-- Behind its head a connection only collects bytes. -/
theorem poll_behind (hs : c.state≠.ReadingHeaders) :
    c.pollReadable false (.data bytes)=some (.ok { c with buf := c.buf++bytes }) := by
  simp only [Connection.pollReadable,Bool.false_eq_true,if_false,if_pos hs]

/-- How a complete head can end. -/
inductive HeadEnd (b : Bytes) : Option (Except ConnError Connection) → Prop where
  | refused (e : ConnError) (hc : ¬Covered b) (ho : ¬Overflows b) : HeadEnd b (some (.error e))
  | overflow (hc : ¬Covered b) (ho : Overflows b) : HeadEnd b none
  | short (len : Nat) (hc : ¬Covered b) (ho : ¬Overflows b) : HeadEnd b (some (.ok ⟨.ReadingBody,b,some len⟩))
  | covered (declared : Option Nat) (hc : Covered b) (ho : ¬Overflows b) :
      HeadEnd b (some (.ok ⟨.Writing,b,declared⟩))

theorem headDone_end (h : findSub terminator b=some pos) : HeadEnd b (headDone b (pos+4)) := by
  have hpos : ∀p,findSub terminator b=some p → p=pos := by
    intro p hp
    rw [h] at hp
    exact (Option.some.inj hp).symm
  -- what the two conditions say of this head
  have hcov : Covered b ↔ ∃declared,parseContentLength (b.take (pos+4))=.ok declared ∧
      ∀len∈declared,pos+4+len < 2^64 ∧ pos+4+len ≤ b.length := by
    constructor
    · intro hc
      obtain ⟨p,declared,hp,hrest⟩ := hc
      rw [hpos p hp] at hrest
      exact ⟨declared,hrest⟩
    · intro hc
      obtain ⟨declared,hrest⟩ := hc
      exact ⟨pos,declared,h,hrest⟩
  have hover : Overflows b ↔ ∃len,parseContentLength (b.take (pos+4))=.ok (some len) ∧ 2^64 ≤ pos+4+len := by
    constructor
    · intro ho
      obtain ⟨p,len,hp,hrest⟩ := ho
      rw [hpos p hp] at hrest
      exact ⟨len,hrest⟩
    · intro ho
      obtain ⟨len,hrest⟩ := ho
      exact ⟨pos,len,h,hrest⟩
  rw [headDone]
  cases hparse : parseContentLength (b.take (pos+4)) with
  | error e =>
    rw [hparse] at hcov hover
    exact .refused e (by rw [hcov]; simp) (by rw [hover]; simp)
  | ok declared =>
    rw [hparse] at hcov hover
    simp only [Except.ok.injEq,exists_eq_left'] at hcov hover
    cases declared with
    | none => exact .covered none (hcov.mpr (by simp)) (by rw [hover]; simp)
    | some len =>
      simp only [Option.mem_some_iff,forall_eq',Option.some.injEq,exists_eq_left'] at hcov hover
      dsimp only
      by_cases hbig : 2^64 ≤ pos+4+len
      · rw [if_pos hbig]
        exact .overflow (by rw [hcov]; omega) (hover.mpr hbig)
      · rw [if_neg hbig]
        by_cases hshort : b.length < pos+4+len
        · rw [if_pos hshort]
          exact .short len (by rw [hcov]; omega) (by rw [hover]; omega)
        · rw [if_neg hshort]
          exact .covered (some len) (hcov.mpr (by omega)) (by rw [hover]; omega)

theorem covered_head (h : Covered b) : ∃pos,findSub terminator b=some pos := by
  obtain ⟨pos,_,hpos,_⟩ := h
  exact ⟨pos,hpos⟩

theorem overflows_head (h : Overflows b) : ∃pos,findSub terminator b=some pos := by
  obtain ⟨pos,_,hpos,_⟩ := h
  exact ⟨pos,hpos⟩

end Head

end Bolina.Control
