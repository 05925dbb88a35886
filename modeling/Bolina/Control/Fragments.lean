import Bolina.Control.Connection

namespace Bolina.Control

open ListSearch Utf8

/-- The passes over a client, and the buffers with which the router is called. -/
def ClientSlot.run (s : ClientSlot) : List ClientIo → ClientSlot × List Bytes
  | [] => (s,[])
  | io::rest =>
    let p := s.pass io
    let q := p.1.run rest
    (q.1,p.2.toList++q.2)

def ReadOutcome.bytes : ReadOutcome → Bytes
  | .data bytes => bytes
  | _ => []

/-- What the reads have brought. -/
def bytesRead (reads : List ClientIo) : Bytes := reads.flatMap (fun io => io.read.bytes)

def readSize : Nat := 4096

/-- The request in nonempty reads before the deadline, with polls that bring nothing between them. -/
structure Splits (reads : List ClientIo) (request : Bytes) : Prop where
  early : ∀io∈reads,io.late=false
  pieces : ∀io∈reads,io.read=.wouldBlock ∨ ∃bytes,io.read=.data bytes ∧ bytes≠[] ∧ bytes.length ≤ readSize
  whole : bytesRead reads=request

/-- A request that is accepted and complete; its length is a `usize`. -/
structure Complete (request : Bytes) (req : Request) : Prop where
  parsed : parse request=.ok req
  length : request.length=req.bodyStart+req.contentLength
  size : request.length < 2^64

/-- The router is called in the pass that reads the last byte, once and on the request. -/
def Delivered (reads : List ClientIo) (request : Bytes) : Prop :=
  ∀i ≤ reads.length,(ClientSlot.run (.live .new) (reads.take i)).2=
    if bytesRead (reads.take i)=request then [request] else []

/-- The client is not to be served any more. -/
inductive Idle : ClientSlot → Prop where
  | removed : Idle .removed
  | stopped : Idle .stopped
  | live (c : Connection) (hr : c.state≠.ReadingHeaders) (hw : c.state≠.Writing) : Idle (.live c)

@[simp] theorem bytesRead_nil : bytesRead []=[] := rfl

theorem bytesRead_cons (io : ClientIo) (reads : List ClientIo) :
    bytesRead (io::reads)=io.read.bytes++bytesRead reads := rfl

theorem bytesRead_append (xs ys : List ClientIo) : bytesRead (xs++ys)=bytesRead xs++bytesRead ys := by
  rw [bytesRead,bytesRead,bytesRead,List.flatMap_append]

theorem run_append (s : ClientSlot) (xs ys : List ClientIo) :
    s.run (xs++ys)=(((s.run xs).1.run ys).1,(s.run xs).2++((s.run xs).1.run ys).2) := by
  induction xs generalizing s with
  | nil => rfl
  | cons io xs ih => simp only [List.cons_append,ClientSlot.run,ih,List.append_assoc]

theorem idle_pass {s : ClientSlot} (h : Idle s) (io : ClientIo) : Idle (s.pass io).1 ∧ (s.pass io).2=none := by
  cases h with
  | removed => exact ⟨.removed,rfl⟩
  | stopped => exact ⟨.stopped,rfl⟩
  | live c hr hw =>
    obtain ⟨late,read,sent⟩ := io
    cases late with
    | true => exact ⟨.removed,rfl⟩
    | false =>
      -- the state stays what it is, or the client goes
      have hkeep : ∀c' : Connection,c'.state=c.state → c.pollReadable false read=some (.ok c') →
          Idle ((ClientSlot.live c).pass ⟨false,read,sent⟩).1 ∧ ((ClientSlot.live c).pass ⟨false,read,sent⟩).2=none := by
        intro c' hc' hpoll
        simp only [ClientSlot.pass,hpoll]
        rw [← hc'] at hr hw
        by_cases hclosing : c'.state=.Closing
        · rw [if_pos hclosing]
          exact ⟨.removed,rfl⟩
        · rw [if_neg hclosing,if_neg hw]
          exact ⟨.live c' hr hw,rfl⟩
      cases read with
      | data bytes => exact hkeep { c with buf := c.buf++bytes } rfl (poll_behind hr)
      | eof => exact ⟨.removed,rfl⟩
      | wouldBlock => exact hkeep c rfl rfl
      | failed => exact ⟨.removed,rfl⟩

theorem idle_run {s : ClientSlot} (h : Idle s) (reads : List ClientIo) : (s.run reads).2=[] := by
  induction reads generalizing s with
  | nil => rfl
  | cons io reads ih =>
    obtain ⟨hidle,hcall⟩ := idle_pass h io
    rw [ClientSlot.run]
    simp only [hcall,ih hidle]
    rfl

/-- A connection that still reads its head. -/
def reading (b : Bytes) : ClientSlot := .live ⟨.ReadingHeaders,b,none⟩

section Head

variable {b bytes : Bytes} {io : ClientIo}

theorem pass_wait (hl : io.late=false) (hr : io.read=.wouldBlock) : (reading b).pass io=(reading b,none) := by
  simp [reading,ClientSlot.pass,Connection.pollReadable,hl,hr]

theorem pass_quiet (hl : io.late=false) (hr : io.read=.data bytes) (h : Quiet (b++bytes)) :
    (reading b).pass io=(reading (b++bytes),none) := by
  have hpoll : Connection.pollReadable ⟨.ReadingHeaders,b,none⟩ false (.data bytes)=
      some (.ok ⟨.ReadingHeaders,b++bytes,none⟩) := poll_quiet rfl h
  simp [reading,ClientSlot.pass,hl,hr,hpoll]

/-- The pass in which the head is complete, or refused for its size, is the last one that
may call the router. -/
theorem pass_turn (hl : io.late=false) (hr : io.read=.data bytes) (h : ¬Quiet (b++bytes)) :
    Idle ((reading b).pass io).1 ∧ (Covered (b++bytes) → ((reading b).pass io).2=some (b++bytes)) ∧
      (¬Covered (b++bytes) → ((reading b).pass io).2=none) := by
  cases hterm : findSub terminator (b++bytes) with
  | none =>
    have hslow : Slow (b++bytes) := by
      by_contra hno
      exact h ⟨hno,hterm⟩
    have hpoll : Connection.pollReadable ⟨.ReadingHeaders,b,none⟩ false (.data bytes)=some (.error .Slowloris) :=
      poll_slow rfl hslow
    simp only [reading,ClientSlot.pass,hl,hr,hpoll]
    refine ⟨.removed,?_,fun _ => trivial⟩
    intro hc
    obtain ⟨pos,hpos⟩ := covered_head hc
    rw [hterm] at hpos
    cases hpos
  | some pos =>
    have hpoll : Connection.pollReadable ⟨.ReadingHeaders,b,none⟩ false (.data bytes)=headDone (b++bytes) (pos+4) :=
      poll_head rfl hterm
    simp only [reading,ClientSlot.pass,hl,hr,hpoll]
    have hend := headDone_end hterm
    generalize headDone (b++bytes) (pos+4)=result at hend
    cases hend with
    | refused e hc _ => exact ⟨.removed,fun h => absurd h hc,fun _ => rfl⟩
    | overflow hc _ => exact ⟨.stopped,fun h => absurd h hc,fun _ => rfl⟩
    | short len hc _ =>
      exact ⟨.live ⟨.ReadingBody,b++bytes,some len⟩ (by simp) (by simp),fun h => absurd h hc,fun _ => rfl⟩
    | covered declared hc _ =>
      refine ⟨?_,fun _ => rfl,fun h => absurd hc h⟩
      dsimp only
      by_cases hsent : io.sent=none
      · rw [if_neg (by decide),if_pos rfl,if_pos hsent]
        exact .live ⟨.Closing,b++bytes,declared⟩ (by simp) (by simp)
      · rw [if_neg (by decide),if_pos rfl,if_neg hsent]
        exact .removed

end Head

theorem quiet_nil : Quiet [] := by
  refine ⟨?_,rfl⟩
  intro h
  exact absurd h.1 (by decide)

/-- While the head is not complete the client goes on reading it. -/
theorem run_quiet (reads : List ClientIo) (b : Bytes) (hl : ∀io∈reads,io.late=false)
    (hp : ∀io∈reads,io.read=.wouldBlock ∨ ∃bytes,io.read=.data bytes)
    (hq : ∀i ≤ reads.length,Quiet (b++bytesRead (reads.take i))) :
    (reading b).run reads=(reading (b++bytesRead reads),[]) := by
  induction reads generalizing b with
  | nil => simp [ClientSlot.run]
  | cons io reads ih =>
    have hlate := hl io List.mem_cons_self
    have hpiece := hp io List.mem_cons_self
    have hstep : (reading b).pass io=(reading (b++io.read.bytes),none) := by
      cases hpiece with
      | inl hw =>
        have hnone : io.read.bytes=[] := by rw [hw]; rfl
        rw [pass_wait hlate hw,hnone,List.append_nil]
      | inr hd =>
        obtain ⟨bytes,hd⟩ := hd
        have hone := hq 1 (by simp)
        have hbytes : io.read.bytes=bytes := by rw [hd]; rfl
        rw [List.take_succ_cons,List.take_zero,bytesRead_cons,bytesRead_nil,List.append_nil,hbytes] at hone
        rw [pass_quiet hlate hd hone,hbytes]
    have hrest := ih (b++io.read.bytes) (fun x hx => hl x (List.mem_cons_of_mem io hx))
      (fun x hx => hp x (List.mem_cons_of_mem io hx)) (by
        intro i hi
        have h := hq (i+1) (by rw [List.length_cons]; omega)
        rw [List.take_succ_cons,bytesRead_cons,← List.append_assoc] at h
        exact h)
    rw [ClientSlot.run]
    simp only [hstep,hrest,bytesRead_cons,List.append_assoc]
    rfl

/-- The reads up to the one at which the buffer is quiet no more. -/
theorem first_turn (reads : List ClientIo) (b : Bytes) (hb : Quiet b) (h : ¬Quiet (b++bytesRead reads)) :
    ∃front io back,reads=front++io::back ∧ (∀i ≤ front.length,Quiet (b++bytesRead (front.take i))) ∧
      ¬Quiet (b++bytesRead (front++[io])) := by
  induction reads generalizing b with
  | nil =>
    rw [bytesRead_nil,List.append_nil] at h
    exact absurd hb h
  | cons io reads ih =>
    by_cases hone : Quiet (b++io.read.bytes)
    · rw [bytesRead_cons,← List.append_assoc] at h
      obtain ⟨front,turn,back,hreads,hquiet,hturn⟩ := ih (b++io.read.bytes) hone h
      refine ⟨io::front,turn,back,by rw [hreads]; rfl,?_,?_⟩
      · intro i hi
        cases i with
        | zero =>
          rw [List.take_zero,bytesRead_nil,List.append_nil]
          exact hb
        | succ i =>
          rw [List.take_succ_cons,bytesRead_cons,← List.append_assoc]
          exact hquiet i (by rw [List.length_cons] at hi; omega)
      · rw [List.cons_append,bytesRead_cons,← List.append_assoc]
        exact hturn
    · refine ⟨[],io,reads,rfl,?_,?_⟩
      · intro i hi
        rw [List.take_nil,bytesRead_nil,List.append_nil]
        exact hb
      · rw [List.nil_append,bytesRead_cons,bytesRead_nil,List.append_nil]
        exact hone

/-- What the code delivers whole. -/
structure Kept (reads : List ClientIo) (request : Bytes) (req : Request) : Prop where
  quick : ∀i ≤ reads.length,¬Slow (bytesRead (reads.take i))
  head : ∀i ≤ reads.length,bytesRead (reads.take i)≠request →
    findSub terminator (bytesRead (reads.take i))=none
  declared : ∃declared,parseContentLength (request.take req.bodyStart)=.ok declared ∧
    ∀len∈declared,len ≤ req.contentLength

theorem complete_head {request : Bytes} {req : Request} (h : Complete request req) :
    ∃pos,findSub terminator request=some pos ∧ req.bodyStart=pos+4 := by
  obtain ⟨headEnd,line,declared,hp⟩ := parse_ok h.parsed
  refine ⟨headEnd,hp.ends,?_⟩
  rw [hp.eq]

/-- A complete request is covered when no line of it declares more than its body. -/
theorem complete_covered {request : Bytes} {req : Request} (h : Complete request req) :
    Covered request ↔ ∃declared,parseContentLength (request.take req.bodyStart)=.ok declared ∧
      ∀len∈declared,len ≤ req.contentLength := by
  obtain ⟨pos,hpos,hbody⟩ := complete_head h
  have hlen := h.length
  have hsize := h.size
  rw [hbody] at hlen ⊢
  constructor
  · intro hc
    obtain ⟨p,declared,hp,hparse,hfit⟩ := hc
    rw [hpos] at hp
    cases hp
    refine ⟨declared,hparse,?_⟩
    intro len hmem
    have := hfit len hmem
    omega
  · intro hc
    obtain ⟨declared,hparse,hfit⟩ := hc
    refine ⟨pos,declared,hpos,hparse,?_⟩
    intro len hmem
    have := hfit len hmem
    omega

section Turn

variable {reads : List ClientIo} {request : Bytes} {req : Request}

/-- The run in three parts: reads while the head is not complete, the read that turns the
client, and what comes behind, which calls no more. -/
structure Turn (reads front : List ClientIo) (io : ClientIo) (back : List ClientIo) (call : Option Bytes) : Prop where
  reads : reads=front++io::back
  quiet : ∀i ≤ front.length,Quiet (bytesRead (front.take i))
  turned : ¬Quiet (bytesRead (front++[io]))
  before : ∀i ≤ front.length,(ClientSlot.run (.live .new) (front.take i)).2=[]
  behind : ∀i,(ClientSlot.run (.live .new) (front++io::back.take i)).2=call.toList
  calls : Covered (bytesRead (front++[io])) → call=some (bytesRead (front++[io]))
  silent : ¬Covered (bytesRead (front++[io])) → call=none

theorem turn_exists (h : Complete request req) (hs : Splits reads request) :
    ∃front io back call,Turn reads front io back call := by
  obtain ⟨pos,hpos,_⟩ := complete_head h
  have hnot : ¬Quiet ([]++bytesRead reads) := by
    intro hq
    have hnone := hq.2
    rw [List.nil_append,hs.whole,hpos] at hnone
    cases hnone
  obtain ⟨front,io,back,hreads,hquiet,hturn⟩ := first_turn reads [] quiet_nil hnot
  rw [List.nil_append] at hturn
  have hfront : ∀x∈front,x∈reads := by
    intro x hx
    rw [hreads]
    exact List.mem_append_left _ hx
  have hio : io∈reads := by
    rw [hreads]
    exact List.mem_append_right front List.mem_cons_self
  have hdata : ∀x∈reads,x.read=.wouldBlock ∨ ∃bytes,x.read=.data bytes := by
    intro x hx
    cases hs.pieces x hx with
    | inl hw => exact .inl hw
    | inr hd =>
      obtain ⟨bytes,hd,_⟩ := hd
      exact .inr ⟨bytes,hd⟩
  have hrun : ∀i ≤ front.length,(reading []).run (front.take i)=(reading (bytesRead (front.take i)),[]) := by
    intro i hi
    refine run_quiet (front.take i) [] (fun x hx => hs.early x (hfront x (List.mem_of_mem_take hx)))
      (fun x hx => hdata x (hfront x (List.mem_of_mem_take hx))) ?_
    intro j hj
    rw [List.length_take] at hj
    rw [List.take_take]
    exact hquiet (min j i) (by omega)
  have hall := hrun front.length (Nat.le_refl _)
  rw [List.take_length] at hall
  -- the read of the turn brings bytes
  obtain ⟨bytes,hbytes⟩ : ∃bytes,io.read=.data bytes := by
    cases hdata io hio with
    | inr hd => exact hd
    | inl hw =>
      have hsame : bytesRead (front++[io])=bytesRead front := by
        rw [bytesRead_append,bytesRead_cons,hw]
        simp [ReadOutcome.bytes]
      have hlast := hquiet front.length (Nat.le_refl _)
      rw [List.take_length,List.nil_append,← hsame] at hlast
      exact absurd hlast hturn
  have hx : bytesRead (front++[io])=bytesRead front++bytes := by
    rw [bytesRead_append,bytesRead_cons,hbytes,bytesRead_nil,List.append_nil]
    rfl
  have hnot' := hturn
  rw [hx] at hnot'
  obtain ⟨hidle,hcalls,hsilent⟩ := pass_turn (hs.early io hio) hbytes hnot'
  refine ⟨front,io,back,((reading (bytesRead front)).pass io).2,hreads,?_,hturn,?_,?_,?_,?_⟩
  · exact hquiet
  · intro i hi
    exact congrArg Prod.snd (hrun i hi)
  · intro i
    change ((reading []).run (front++io::back.take i)).2=_
    rw [run_append,hall]
    change []++(((reading (bytesRead front)).pass io).2.toList++
      (((reading (bytesRead front)).pass io).1.run (back.take i)).2)=_
    rw [idle_run hidle,List.append_nil,List.nil_append]
  · rw [hx]
    exact hcalls
  · rw [hx]
    exact hsilent

/-- Behind a turn that brings the last byte, nothing is left to read. -/
theorem read_behind {front back : List ClientIo} {io : ClientIo} (hreads : reads=front++io::back)
    (hs : Splits reads request) (hlast : bytesRead (front++[io])=request) (i : Nat) :
    bytesRead (front++io::back.take i)=request := by
  have hsplit : ∀xs,bytesRead (front++io::xs)=request++bytesRead xs := by
    intro xs
    rw [List.append_cons,bytesRead_append,hlast]
  have hwhole := hs.whole
  rw [hreads,hsplit,List.append_right_eq_self] at hwhole
  have hpart : bytesRead (back.take i)++bytesRead (back.drop i)=[] := by
    rw [← bytesRead_append,List.take_append_drop,hwhole]
  rw [hsplit,(List.append_eq_nil_iff.mp hpart).1,List.append_nil]

section Parts

variable {front back : List ClientIo} {io : ClientIo} {call : Option Bytes}

theorem Turn.length (ht : Turn reads front io back call) : front.length < reads.length := by
  rw [ht.reads,List.length_append,List.length_cons]
  omega

theorem Turn.take_front (ht : Turn reads front io back call) {i : Nat} (hi : i ≤ front.length) :
    reads.take i=front.take i := by
  rw [ht.reads,List.take_append_of_le_length hi]

theorem Turn.take_behind (ht : Turn reads front io back call) {i : Nat} (hi : front.length < i) :
    reads.take i=front++io::back.take (i-(front.length+1)) := by
  obtain ⟨k,rfl⟩ := Nat.exists_eq_add_of_lt hi
  rw [ht.reads,List.take_append,List.take_of_length_le (by omega)]
  have he : front.length+k+1-front.length=k+1 := by omega
  have he' : front.length+k+1-(front.length+1)=k := by omega
  rw [he,he',List.take_succ_cons]

/-- Before the turn the request is not read whole. -/
theorem Turn.front_ne (ht : Turn reads front io back call) (h : Complete request req) {i : Nat}
    (hi : i ≤ front.length) : bytesRead (reads.take i)≠request := by
  intro he
  obtain ⟨pos,hpos,_⟩ := complete_head h
  have hq := (ht.quiet i hi).2
  rw [← ht.take_front hi,he,hpos] at hq
  cases hq

/-- A request that is delivered is read whole at the turn. -/
theorem Turn.whole_of_delivered (ht : Turn reads front io back call) (hs : Splits reads request)
    (hd : Delivered reads request) : bytesRead (front++[io])=request ∧ Covered request := by
  have hlast := hd reads.length (Nat.le_refl _)
  rw [ht.take_behind ht.length,ht.behind,← ht.take_behind ht.length,List.take_length,hs.whole,if_pos rfl] at hlast
  have hcall : call=some request := by
    cases call with
    | none => cases hlast
    | some x => rw [(List.cons.inj hlast).1]
  have hcov : Covered (bytesRead (front++[io])) := by
    by_contra hno
    rw [ht.silent hno] at hcall
    cases hcall
  have hx : bytesRead (front++[io])=request := by
    have hc := ht.calls hcov
    rw [hcall] at hc
    exact (Option.some.inj hc).symm
  exact ⟨hx,hx ▸ hcov⟩

/-- So is one that no part of gives away. -/
theorem Turn.whole_of_kept (ht : Turn reads front io back call) (hk : Kept reads request req) :
    bytesRead (front++[io])=request := by
  have hone : reads.take (front.length+1)=front++[io] := by
    rw [ht.take_behind (Nat.lt_succ_self _),Nat.sub_self,List.take_zero]
  by_contra hne
  have hslow := hk.quick (front.length+1) ht.length
  have hhead := hk.head (front.length+1) ht.length
  rw [hone] at hslow hhead
  exact ht.turned ⟨hslow,hhead hne⟩

end Parts

/-- A split request comes to the router when its last byte is read, once and whole,
exactly if no part of it looks slow to the size guard, the read that completes the head
completes the request too, and no line that declares a length declares more. -/
theorem delivered_iff (reads : List ClientIo) (request : Bytes) (req : Request) (h : Complete request req)
    (hs : Splits reads request) : Delivered reads request ↔ Kept reads request req := by
  obtain ⟨front,io,back,call,ht⟩ := turn_exists h hs
  obtain ⟨pos,hpos,_⟩ := complete_head h
  constructor
  · intro hd
    obtain ⟨hx,hcov⟩ := ht.whole_of_delivered hs hd
    have hend : ∀i,front.length < i → bytesRead (reads.take i)=request := by
      intro i hi
      rw [ht.take_behind hi]
      exact read_behind ht.reads hs hx _
    refine ⟨?_,?_,(complete_covered h).mp hcov⟩
    · intro i hi
      by_cases hfront : i ≤ front.length
      · rw [ht.take_front hfront]
        exact (ht.quiet i hfront).1
      · rw [hend i (not_le.mp hfront)]
        exact not_slow hpos
    · intro i hi hne
      by_cases hfront : i ≤ front.length
      · rw [ht.take_front hfront]
        exact (ht.quiet i hfront).2
      · exact absurd (hend i (not_le.mp hfront)) hne
  · intro hk
    have hx := ht.whole_of_kept hk
    have hcall := ht.calls (by rw [hx]; exact (complete_covered h).mpr hk.declared)
    intro i hi
    by_cases hfront : i ≤ front.length
    · rw [if_neg (ht.front_ne h hfront),ht.take_front hfront]
      exact ht.before i hfront
    · rw [ht.take_behind (not_le.mp hfront),ht.behind,read_behind ht.reads hs hx,if_pos rfl,hcall,hx]
      rfl

end Turn

def sampleHead : Bytes := ascii "POST /v1/intents HTTP/1.1\r\nContent-Length: 2\r\n\r\n"

def samplePost : Bytes := sampleHead++ascii "ab"

def samplePostRequest : Request := ⟨.Post,5,16,none,2,48⟩

/-- A read before the deadline, of a client that takes its reply. -/
def brings (bytes : Bytes) : ClientIo := ⟨false,.data bytes,none⟩

theorem samplePost_complete : Complete samplePost samplePostRequest := by
  refine ⟨by decide +kernel,by decide +kernel,?_⟩
  have hlen : samplePost.length=50 := by decide +kernel
  omega

/-- The request in two parts, cut inside the head, with a pass that reads nothing between. -/
def splitPost : List ClientIo :=
  [brings (ascii "POST /v1/inten"),⟨false,.wouldBlock,none⟩,
    brings (ascii "ts HTTP/1.1\r\nContent-Length: 2\r\n\r\nab")]

theorem splitPost_splits : Splits splitPost samplePost := by
  refine ⟨by simp [splitPost,brings],?_,by decide +kernel⟩
  intro io hio
  simp only [splitPost,List.mem_cons,List.not_mem_nil,or_false] at hio
  obtain h|h|h := hio
  · exact .inr ⟨_,by rw [h]; rfl,by decide +kernel,by decide +kernel⟩
  · exact .inl (by rw [h])
  · exact .inr ⟨_,by rw [h]; rfl,by decide +kernel,by decide +kernel⟩

theorem splitPost_kept : Kept splitPost samplePost samplePostRequest where
  quick := by
    have hslow : ∀i ≤ splitPost.length,¬(slowlorisSize ≤ (bytesRead (splitPost.take i)).length ∧
        findSub crlf (bytesRead (splitPost.take i))=none) := by decide +kernel
    exact hslow
  head := by decide +kernel
  declared := ⟨some 2,by decide +kernel,fun len hlen => (Option.some.inj hlen).ge⟩

theorem delivered_sample :
    (Delivered splitPost samplePost ↔ Kept splitPost samplePost samplePostRequest) ∧ Delivered splitPost samplePost := by
  have hiff := delivered_iff splitPost samplePost samplePostRequest samplePost_complete splitPost_splits
  exact ⟨hiff,hiff.mpr splitPost_kept⟩

/-- A body that comes in a read of its own is never waited for. -/
theorem body_undelivered :
    Complete samplePost samplePostRequest ∧ fromUtf8 samplePost≠none ∧ lineEnd samplePost < slowlorisSize ∧
      Splits [brings sampleHead,brings (ascii "ab")] samplePost ∧
      (ClientSlot.run (.live .new) [brings sampleHead,brings (ascii "ab")]).2=[] ∧
      ¬Delivered [brings sampleHead,brings (ascii "ab")] samplePost := by
  have hcalls : (ClientSlot.run (.live .new) [brings sampleHead,brings (ascii "ab")]).2=[] := by decide +kernel
  refine ⟨samplePost_complete,by decide +kernel,by decide +kernel,⟨?_,?_,by decide +kernel⟩,hcalls,?_⟩
  · simp [brings]
  · intro io hio
    simp only [List.mem_cons,List.not_mem_nil,or_false] at hio
    cases hio with
    | inl h => exact .inr ⟨sampleHead,by rw [h]; rfl,by decide +kernel,by decide +kernel⟩
    | inr h => exact .inr ⟨ascii "ab",by rw [h]; rfl,by decide +kernel,by decide +kernel⟩
  · intro hd
    have hlast := hd 2 (Nat.le_refl 2)
    have hwhole : bytesRead [brings sampleHead,brings (ascii "ab")]=samplePost := by decide +kernel
    rw [List.take_of_length_le (Nat.le_refl 2),hcalls,hwhole,if_pos rfl] at hlast
    cases hlast

end Bolina.Control
