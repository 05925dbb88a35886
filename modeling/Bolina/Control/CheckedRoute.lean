import Bolina.Control.CheckedHttp
import Mathlib.Data.List.TakeWhile

namespace Bolina.Checked

open Panic ListSearch Utf8
open Control (Method Request RequestLine HttpReply RouteCtx Bad cr sp terminator headerCap bodyCap asciiLower bearerNeedle
  healthzPath intentsPath intentPath eventsPath metricsPath forbidden errorReply)

/-- The scan for the needle from the offset `i` on, and the check of what is behind it. -/
def bearerLoop (headers : Bytes) (expected : FixedBytes 64) : Nat → Nat → Option Bool
  | 0,_ => none
  | fuel+1,i => do
    let stop ← add i bearerNeedle.length
    if headers.length < stop then return false
    else
      let window ← range headers i stop
      if window.map asciiLower=bearerNeedle then
        let rest ← range headers stop headers.length
        let token ← range rest 0 ((rest.idxOf? cr).getD rest.length)
        return Token.verify token expected
      else
        let next ← add i 1
        bearerLoop headers expected fuel next

def bearerOk (buf : Bytes) (expected : FixedBytes 64) : Option Bool := do
  let headers ← range buf 0 ((findSub terminator buf).getD buf.length)
  bearerLoop headers expected (headers.length+1) 0

/-- The slice starts one byte behind the start of the query. -/
def extractSince (buf : Bytes) : Option Nat → Option (Option Nat)
  | none => some none
  | some qs => do
    let lo ← add qs 1
    let rest ← range buf lo buf.length
    let text ← range rest 0 ((rest.idxOf? sp).getD rest.length)
    return (fromUtf8 text).bind Control.parseSince

def routeGetIntent (target : Bytes) (ctx : RouteCtx) : Option HttpReply := do
  let idHex ← range target intentPath.length target.length
  match ← parseIdHex ((fromUtf8 idHex).getD []) with
  | none => return errorReply .BadRequest
  | some id =>
    let _key ← idKeyOf id
    match Control.getIntentState id ctx.intents with
    | .error e => return errorReply e
    | .ok state => return (200,state++[Control.lf])

/-- The routes; a post goes on to the intents. -/
def route (req : Request) (buf target : Bytes) (ctx : RouteCtx) : Option (HttpReply × RouteCtx) := do
  let whole ← add req.bodyStart req.contentLength
  if req.method=.Get ∧ target=healthzPath then return ((200,ascii "ok\n"),ctx)
  else if req.method=.Post ∧ target=intentsPath then
    let body ← range buf req.bodyStart (min whole buf.length)
    return Control.routePost body ctx
  else if req.method=.Get ∧ intentPath.isPrefixOf target=true then
    let reply ← routeGetIntent target ctx
    return (reply,ctx)
  else if req.method=.Get ∧ eventsPath.isPrefixOf target=true then
    let since ← extractSince buf req.queryStart
    return ((200,Control.eventsSseBody ctx.ring (since.getD 0)),ctx)
  else if req.method=.Get ∧ target=metricsPath then return ((200,Control.metricsBody ctx),ctx)
  else return ((404,ascii "not found\n"),ctx)

def routeHttp (buf : Bytes) (ctx : RouteCtx) : Option (HttpReply × RouteCtx) := do
  match ← parse buf with
  | .error _ => return ((400,ascii "bad request\n"),ctx)
  | .ok req =>
    let target ← range buf req.targetStart req.targetEnd
    match ctx.token with
    | some expected =>
      let bears ← bearerOk buf expected
      if bears=false then return (forbidden,{ ctx with authRefused := ctx.authRefused+1 })
      else route req buf target ctx
    | none => if target≠healthzPath then return (forbidden,ctx) else route req buf target ctx

/-- The offsets of a request in its buffer. -/
structure InRange (buf : Bytes) (req : Request) : Prop where
  target : req.targetStart ≤ req.targetEnd
  line : req.targetEnd < req.bodyStart
  head : req.bodyStart ≤ buf.length
  query : ∀q,req.queryStart=some q → q=req.targetEnd+1 ∧ q < req.bodyStart
  body : req.contentLength ≤ bodyCap
  ends : 4 ≤ req.bodyStart ∧ findSub terminator buf=some (req.bodyStart-4)

section Routes

variable {buf headers rest : Bytes} {req : Request}

theorem parse_inRange (h : Control.parse buf=.ok req) : InRange buf req := by
  obtain ⟨headEnd,line,declared,hp⟩ := Control.parse_ok h
  have hle : headEnd+terminator.length ≤ buf.length := findSub_le hp.ends
  have hfour : terminator.length=4 := rfl
  have hfits := (Control.parseLine_ok hp.lined).fits
  rw [List.length_take,List.length_take] at hfits
  have hmark : ∀q,line.target.idxOf? Control.questionMark=some q → q < line.target.length := by
    intro q hq
    exact (List.idxOf?_eq_some_iff.mp hq).1
  rw [hp.eq]
  cases hq : line.target.idxOf? Control.questionMark with
  | none =>
    constructor
    · exact Nat.le_add_right _ _
    · simp only [Option.getD_none]
      omega
    · exact hle
    · simp
    · exact hp.fits
    · exact ⟨Nat.le_add_left 4 headEnd,hp.ends⟩
  | some q =>
    have hlt := hmark q hq
    constructor
    · exact Nat.le_add_right _ _
    · simp only [Option.getD_some]
      omega
    · exact hle
    · intro q' hq'
      simp only [Option.map_some,Option.some.injEq] at hq'
      simp only [Option.getD_some]
      omega
    · exact hp.fits
    · exact ⟨Nat.le_add_left 4 headEnd,hp.ends⟩

/-- A list up to the first place of an element. -/
theorem range_until (xs : Bytes) (b : UInt8) :
    range xs 0 ((xs.idxOf? b).getD xs.length)=some (xs.takeWhile (fun c => c≠b)) := by
  cases hi : xs.idxOf? b with
  | none =>
    have hno := List.idxOf?_eq_none_iff.mp hi
    have hall : xs.takeWhile (fun c => decide (c≠b))=xs := by
      rw [List.takeWhile_eq_self_iff]
      intro c hc
      rw [decide_eq_true_iff]
      intro he
      exact hno (by rw [← he]; exact hc)
    rw [Option.getD_none,range_front le_rfl,List.take_length,hall]
  | some i =>
    have hlt := (List.idxOf?_eq_some_iff.mp hi).1
    obtain ⟨_,htake,_⟩ := idxOf?_cut hi
    rw [Option.getD_some,range_front (Nat.le_of_lt hlt),htake]

/-- The scan finds the first place that reads as the needle. -/
theorem bearerLoop_eq (expected : FixedBytes 64) (hlen : headers.length < sliceLimit) (fuel i : Nat)
    (hf : headers.length < fuel+i) (hi : i ≤ headers.length) : bearerLoop headers expected fuel i=
      some (match findSub bearerNeedle ((headers.drop i).map asciiLower) with
        | none => false
        | some j => Token.verify
            ((headers.drop (i+j+bearerNeedle.length)).takeWhile (fun b => b≠cr)) expected) := by
  have hword : wordLimit=2*sliceLimit := rfl
  have hneedle : bearerNeedle.length=22 := by decide
  rw [sliceLimit] at hlen hword
  induction fuel generalizing i with
  | zero => omega
  | succ fuel ih =>
    have hstop : add i bearerNeedle.length=some (i+bearerNeedle.length) := add_eq (by omega)
    rw [bearerLoop]
    simp only [Option.bind_eq_bind,hstop,Option.bind_some]
    by_cases hend : headers.length < i+bearerNeedle.length
    · have hnone : findSub bearerNeedle ((headers.drop i).map asciiLower)=none := by
        rw [findSub_eq_none]
        intro j hp
        have hle := hp.length_le
        rw [List.length_drop,List.length_map,List.length_drop] at hle
        omega
      rw [if_pos hend,hnone]
      rfl
    · have hwindow : range headers i (i+bearerNeedle.length)=some ((headers.drop i).take bearerNeedle.length) :=
        range_add (by omega)
      have hrest : range headers (i+bearerNeedle.length) headers.length=some (headers.drop (i+bearerNeedle.length)) :=
        range_back (by omega)
      have hfront : ((headers.drop i).take bearerNeedle.length).map asciiLower=bearerNeedle ↔
          bearerNeedle <+: (headers.drop i).map asciiLower := by
        rw [List.map_take,List.prefix_iff_eq_take,eq_comm]
      rw [if_neg hend,hwindow,Option.bind_some]
      by_cases hat : ((headers.drop i).take bearerNeedle.length).map asciiLower=bearerNeedle
      · have hzero : findSub bearerNeedle ((headers.drop i).map asciiLower)=some 0 := by
          rw [findSub_eq_some]
          exact ⟨hfront.mp hat,fun j hj => absurd hj (Nat.not_lt_zero j)⟩
        rw [if_pos hat,hrest,hzero]
        simp only [Option.bind_some,range_until]
        rfl
      · have hin : i < headers.length := by omega
        have hnext : add i 1=some (i+1) := add_eq (by omega)
        have hstep : findSub bearerNeedle ((headers.drop i).map asciiLower)=
            (findSub bearerNeedle ((headers.drop (i+1)).map asciiLower)).map (·+1) := by
          rw [List.drop_eq_getElem_cons hin,List.map_cons,findSub,if_neg]
          rw [List.isPrefixOf_iff_prefix,← List.map_cons,← List.drop_eq_getElem_cons hin]
          exact fun hp => hat (hfront.mpr hp)
        rw [if_neg hat,hnext,Option.bind_some,ih (i+1) (by omega) (by omega),hstep]
        cases findSub bearerNeedle ((headers.drop (i+1)).map asciiLower) with
        | none => rfl
        | some j =>
          have hmove : i+1+j+bearerNeedle.length=i+(j+1)+bearerNeedle.length := by omega
          simp only [Option.map_some,hmove]

theorem bearerOk_eq (h : buf.length < sliceLimit) (expected : FixedBytes 64) :
    bearerOk buf expected=some (Control.bearerOk buf expected) := by
  have hle : (findSub terminator buf).getD buf.length ≤ buf.length := by
    cases hf : findSub terminator buf with
    | none => exact le_rfl
    | some i =>
      have hi := findSub_le hf
      rw [Option.getD_some]
      omega
  have hhead : range buf 0 ((findSub terminator buf).getD buf.length)=some (Control.headOf buf) := range_front hle
  have hshort : (Control.headOf buf).length < sliceLimit := by
    rw [Control.headOf,List.length_take]
    omega
  rw [bearerOk,hhead]
  simp only [Option.bind_eq_bind,Option.bind_some]
  rw [bearerLoop_eq expected hshort _ 0 (Nat.lt_succ_self _) (Nat.zero_le _),Control.bearerOk]
  rw [List.drop_zero]
  cases findSub bearerNeedle ((Control.headOf buf).map asciiLower) with
  | none => rfl
  | some j =>
    have hmove : 0+j+bearerNeedle.length=j+bearerNeedle.length := by omega
    exact congrArg (fun k => some (Token.verify (((Control.headOf buf).drop k).takeWhile (fun b => b≠cr)) expected)) hmove

/-- The byte behind the start of a query is in the buffer, as the version follows. -/
theorem extractSince_eq (h : buf.length < sliceLimit) (hr : InRange buf req) :
    extractSince buf req.queryStart=some (Control.extractSince buf req.queryStart) := by
  have hword : wordLimit=2*sliceLimit := rfl
  cases hq : req.queryStart with
  | none => rfl
  | some qs =>
    obtain ⟨_,hlt⟩ := hr.query qs hq
    have hhead := hr.head
    have hlo : add qs 1=some (qs+1) := add_eq (by omega)
    have hrest : range buf (qs+1) buf.length=some (buf.drop (qs+1)) := range_back (by omega)
    rw [extractSince,Control.extractSince]
    simp only [Option.bind_eq_bind,hlo,Option.bind_some,hrest,range_until]
    rfl

theorem routeGetIntent_eq (target : Bytes) (ctx : RouteCtx) (hp : intentPath <+: target) :
    routeGetIntent target ctx=some (Control.routeGetIntent (target.drop intentPath.length) ctx) := by
  have hsuffix : range target intentPath.length target.length=some (target.drop intentPath.length) :=
    range_back hp.length_le
  rw [routeGetIntent,Control.routeGetIntent]
  simp only [Option.bind_eq_bind,hsuffix,Option.bind_some,parseIdHex_eq]
  cases hid : Control.parseIdHex ((fromUtf8 (target.drop intentPath.length)).getD []) with
  | none => rfl
  | some id =>
    dsimp only
    rw [idKeyOf_eq (Control.parseIdHex_length hid),Option.bind_some]
    cases Control.getIntentState id ctx.intents <;> rfl

theorem route_eq (h : buf.length < sliceLimit) (hr : InRange buf req) (ctx : RouteCtx) :
    route req buf (req.target buf) ctx=some (Control.route req buf ctx) := by
  have hhead := hr.head
  have hcap := hr.body
  have hword : wordLimit=2*sliceLimit := rfl
  have hwhole : add req.bodyStart req.contentLength=some (req.bodyStart+req.contentLength) := by
    apply add_eq
    rw [bodyCap] at hcap
    rw [sliceLimit] at *
    omega
  have hbody : range buf req.bodyStart (min (req.bodyStart+req.contentLength) buf.length)=some (req.body buf) := by
    rw [range,if_pos (by omega),Request.body]
    apply congrArg some
    by_cases hin : req.bodyStart+req.contentLength ≤ buf.length
    · rw [Nat.min_eq_left hin,Nat.add_sub_cancel_left]
    · rw [Nat.min_eq_right (by omega),← List.length_drop,List.take_length,List.take_of_length_le]
      rw [List.length_drop]
      omega
  rw [route,Control.route]
  simp only [Option.bind_eq_bind,hwhole,Option.bind_some,hbody]
  split_ifs with h1 h2 h3 h4 h5
  · rfl
  · rfl
  · rw [routeGetIntent_eq _ ctx (List.isPrefixOf_iff_prefix.mp h3.2)]
    rfl
  · rw [extractSince_eq h hr]
    rfl
  · rfl
  · rfl

/-- No slice of the router is out of range. -/
theorem routeHttp_eq (h : buf.length < sliceLimit) (ctx : RouteCtx) :
    routeHttp buf ctx=some (Control.routeHttp buf ctx) := by
  rw [routeHttp,Control.routeHttp,parse_eq h]
  simp only [Option.bind_eq_bind,Option.bind_some]
  cases hp : Control.parse buf with
  | error e => rfl
  | ok req =>
    have hr := parse_inRange hp
    have htarget : range buf req.targetStart req.targetEnd=some (req.target buf) := by
      rw [range,if_pos ⟨hr.target,by have := hr.line; have := hr.head; omega⟩]
      rfl
    dsimp only
    rw [htarget,Option.bind_some]
    cases ctx.token with
    | none =>
      dsimp only
      split
      · rfl
      · exact route_eq h hr ctx
    | some expected =>
      dsimp only
      rw [bearerOk_eq h,Option.bind_some]
      split
      · rfl
      · exact route_eq h hr ctx

end Routes

/-- The parser ends on every buffer without leaving it, the offsets that it gives are in
range, and no slice that the router takes behind it is out of range. -/
theorem http_in_range (buf : Slice) : parse buf.val=some (Control.parse buf.val) ∧
    (∀req,Control.parse buf.val=.ok req → InRange buf.val req) ∧
    ∀ctx,routeHttp buf.val ctx=some (Control.routeHttp buf.val ctx) := by
  refine ⟨parse_eq buf.property,?_,routeHttp_eq buf.property⟩
  intro req h
  exact parse_inRange h

end Bolina.Checked
