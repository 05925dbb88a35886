import Bolina.Control.RouteHttp
import Mathlib.Data.List.Flatten

namespace Bolina.Control

open ListSearch Utf8

/-- The ring behind any number of events. -/
def ringAfter (tags : List EventTag) : EventRing := tags.foldl EventRing.publish EventRing.new

/-- The numbers ascend, from 1 up to the next one. -/
structure EventRing.Ordered (r : EventRing) : Prop where
  ascends : r.events.Pairwise (fun a b => a.1 < b.1)
  positive : ∀e∈r.events,0 < e.1
  below : ∀e∈r.events,e.1 < r.nextSeq
  next : 0 < r.nextSeq

theorem publish_ordered {r : EventRing} (h : r.Ordered) (tag : EventTag) : (r.publish tag).Ordered := by
  have hkept : (if r.events.length=ringCap then r.events.drop 1 else r.events).Sublist r.events := by
    split
    · exact List.drop_sublist 1 r.events
    · exact List.Sublist.refl _
  constructor
  · apply List.pairwise_append.mpr
    refine ⟨h.ascends.sublist hkept,List.pairwise_singleton _ _,?_⟩
    intro a ha b hb
    rw [List.mem_singleton.mp hb]
    exact h.below a (hkept.subset ha)
  · intro e he
    cases List.mem_append.mp he with
    | inl he => exact h.positive e (hkept.subset he)
    | inr he =>
      rw [List.mem_singleton.mp he]
      exact h.next
  · intro e he
    change e.1 < r.nextSeq+1
    cases List.mem_append.mp he with
    | inl he =>
      have hlt := h.below e (hkept.subset he)
      omega
    | inr he =>
      rw [List.mem_singleton.mp he]
      exact Nat.lt_succ_self _
  · exact Nat.succ_pos _

theorem ringAfter_ordered (tags : List EventTag) : (ringAfter tags).Ordered := by
  have hrun : ∀r : EventRing,r.Ordered → (tags.foldl EventRing.publish r).Ordered := by
    induction tags with
    | nil => exact fun r h => h
    | cons tag tags ih => exact fun r h => ih _ (publish_ordered h tag)
  exact hrun _ ⟨List.Pairwise.nil,by simp [EventRing.new],by simp [EventRing.new],Nat.one_pos⟩

/-- In an ordered ring the part behind the cursor is what has a higher number. -/
theorem since_eq_filter {r : EventRing} (h : r.Ordered) (n : Nat) :
    r.since n=r.events.filter (fun e => n < e.1) := by
  apply drop_first
  apply h.ascends.imp
  intro a b hab ha
  have hn : n < a.1 := by simpa using ha
  simp
  omega

theorem since_zero {r : EventRing} (h : r.Ordered) : r.since 0=r.events := by
  rw [since_eq_filter h,List.filter_eq_self]
  intro e he
  simpa using h.positive e he

def render (events : List (Nat × EventTag)) : Bytes := events.flatMap sseEvent

theorem render_filter_le (events : List (Nat × EventTag)) (p : Nat × EventTag → Bool) :
    (render (events.filter p)).length ≤ (render events).length :=
  (List.Sublist.flatMap List.filter_sublist sseEvent).length_le

/-- Events that are left out are missing from the text. -/
theorem render_filter (events : List (Nat × EventTag)) (p : Nat × EventTag → Bool) :
    render events=render (events.filter p) ↔ ∀e∈events,p e=true := by
  constructor
  · intro h
    induction events with
    | nil => simp
    | cons e es ih =>
      have hne : 0 < (sseEvent e).length := by
        have hfront : (ascii "event: ").length=7 := by decide
        rw [sseEvent]
        simp only [List.length_append,hfront]
        omega
      cases hp : p e with
      | false =>
        have hlen := congrArg List.length h
        have hrest := render_filter_le es p
        have hcons : render (e::es)=sseEvent e++render es := List.flatMap_cons
        rw [List.filter_cons_of_neg (by rw [hp]; decide),hcons,List.length_append] at hlen
        omega
      | true =>
        rw [List.filter_cons_of_pos hp,render,render,List.flatMap_cons,List.flatMap_cons] at h
        have htail := List.append_cancel_left h
        intro x hx
        cases List.mem_cons.mp hx with
        | inl he => rw [he,hp]
        | inr hx => exact ih htail x hx
  · intro h
    rw [List.filter_eq_self.mpr h]

/-- The request line asks for this target, and the parser accepts the request. -/
structure Asks (buf target : Bytes) (req : Request) : Prop where
  bytes : ∃rest,buf=getLine target++(crlf++rest)
  noCr : cr∉target
  parsed : parse buf=.ok req

/-- The request carries the token. -/
def Authorised (buf : Bytes) (ctx : RouteCtx) : Prop :=
  ∃expected,ctx.token=some expected ∧ bearerOk buf expected=true

section Asked

variable {buf target : Bytes} {req : Request} {ctx : RouteCtx}

theorem routeHttp_authorised (hp : parse buf=.ok req) (ha : Authorised buf ctx) :
    routeHttp buf ctx=route req buf ctx := by
  obtain ⟨expected,ht,hb⟩ := ha
  simp only [routeHttp,hp,ht,hb,Bool.true_eq_false,if_false]

theorem asks_method (h : Asks buf target req) : req.method=.Get := by
  obtain ⟨rest,hbuf⟩ := h.bytes
  have hparsed := h.parsed
  rw [hbuf] at hparsed
  exact (parse_get h.noCr hparsed).2.1

theorem asks_query (h : Asks buf target req) :
    req.queryStart=(target.idxOf? questionMark).map (fun q => 4+q+1) := by
  obtain ⟨rest,hbuf⟩ := h.bytes
  have hparsed := h.parsed
  rw [hbuf] at hparsed
  exact (parse_get h.noCr hparsed).2.2.2.2

/-- The path of a request is what stands before the question mark. -/
theorem asks_target (h : Asks buf target req) :
    req.target buf=target.take ((target.idxOf? questionMark).getD target.length) := by
  obtain ⟨rest,hbuf⟩ := h.bytes
  have hparsed := h.parsed
  rw [hbuf] at hparsed
  obtain ⟨_,_,hstart,hend,_⟩ := parse_get h.noCr hparsed
  have hdrop : buf.drop 4=target++(ascii " HTTP/1.1"++(crlf++rest)) := by
    rw [hbuf,getLine,List.append_assoc,List.append_assoc]
    exact List.drop_left' (by decide)
  have hle : (target.idxOf? questionMark).getD target.length ≤ target.length := by
    cases hq : target.idxOf? questionMark with
    | none => exact Nat.le_refl _
    | some q =>
      obtain ⟨hlt,_⟩ := List.idxOf?_eq_some_iff.mp hq
      exact Nat.le_of_lt hlt
  rw [Request.target,hstart,hend,hdrop,Nat.add_sub_cancel_left,List.take_append_of_le_length hle]

/-- A path under the events is answered with the ring behind the cursor of the query. -/
theorem route_events (hm : req.method=.Get) (ht : eventsPath <+: req.target buf) :
    (route req buf ctx).1=(200,eventsSseBody ctx.ring ((extractSince buf req.queryStart).getD 0)) := by
  have hhealthz : req.target buf≠healthzPath := by
    intro he
    rw [he] at ht
    exact absurd ht (by decide)
  have hintent : intentPath.isPrefixOf (req.target buf)=false := by
    rw [Bool.eq_false_iff]
    intro hp
    cases List.prefix_or_prefix_of_prefix ht (List.isPrefixOf_iff_prefix.mp hp) with
    | inl hpre => exact absurd hpre (by decide)
    | inr hpre => exact absurd hpre (by decide)
  have hevents : eventsPath.isPrefixOf (req.target buf)=true := List.isPrefixOf_iff_prefix.mpr ht
  simp [route,hm,hhealthz,hintent,hevents]

end Asked

/-- The target with a cursor. -/
def sinceTarget (n : Nat) : Bytes := eventsPath++ascii "?since="++decimal n

theorem sinceTarget_query (n : Nat) : (sinceTarget n).idxOf? questionMark=some 10 := by
  have htarget : sinceTarget n=eventsPath++questionMark::(ascii "since="++decimal n) := by
    change (eventsPath++(questionMark::ascii "since="))++decimal n=_
    simp
  rw [htarget]
  exact idxOf?_first eventsPath _ questionMark (by decide)

/-- A text that starts with no digit is no number. -/
theorem parseSince_letter (c : Char) (s : List Char) (h : digitValue c=none) : parseSince (c::s)=none := by
  rw [parseSince,parseDigits,if_neg (List.cons_ne_nil c s),List.foldl_cons]
  simp only [Option.bind_some,h,Option.map_none,foldl_digits_none,Option.filter_none]

/-- The slice starts behind the first letter of the query: what it reads is no number. -/
theorem extractSince_asked {buf : Bytes} {req : Request} {n : Nat} (h : Asks buf (sinceTarget n) req) :
    extractSince buf req.queryStart=none := by
  obtain ⟨rest,hbuf⟩ := h.bytes
  have hdrop : ∃tail,buf.drop 16=0x69::tail := by
    have hbytes : buf=(ascii "GET /v1/events?s"++0x69::ascii "nce=")++(decimal n++(ascii " HTTP/1.1"++(crlf++rest))) := by
      rw [hbuf,getLine,sinceTarget]
      simp only [List.append_assoc]
      rfl
    refine ⟨ascii "nce="++(decimal n++(ascii " HTTP/1.1"++(crlf++rest))),?_⟩
    rw [hbytes]
    rfl
  obtain ⟨tail,htail⟩ := hdrop
  have hslice : (buf.drop 16).takeWhile (fun b => b≠sp)=0x69::tail.takeWhile (fun b => b≠sp) := by
    rw [htail,List.takeWhile_cons_of_pos (by decide)]
  rw [asks_query h,sinceTarget_query,extractSince]
  simp only [Option.map_some,Option.bind_eq_bind,Option.bind_some]
  rw [hslice,fromUtf8_cons _ _ (by decide)]
  cases fromUtf8 (tail.takeWhile (fun b => b≠sp)) with
  | none => rfl
  | some s => exact parseSince_letter _ s (by decide)

section Cursor

variable (tags : List EventTag) (ctx : RouteCtx) (buf : Bytes) (req : Request)

/-- A cursor is answered with the whole ring, so it is kept exactly when nothing in the
ring is at or before it; without a query the whole ring is what is asked for. -/
theorem event_cursor_iff (hring : ctx.ring=ringAfter tags) (ha : Authorised buf ctx) :
    (∀n,Asks buf (sinceTarget n) req →
      ((routeHttp buf ctx).1=(200,render (ctx.ring.events.filter (fun e => n < e.1))) ↔
        ∀e∈ctx.ring.events,n < e.1)) ∧
    (∀target,Asks buf target req → eventsPath <+: target → questionMark∉target →
      (routeHttp buf ctx).1=(200,render ctx.ring.events)) := by
  have hordered : ctx.ring.Ordered := by
    rw [hring]
    exact ringAfter_ordered tags
  constructor
  · intro n h
    have hpath : eventsPath <+: req.target buf := by
      rw [asks_target h,sinceTarget_query,Option.getD_some,sinceTarget,List.append_assoc,
        List.take_append_of_le_length (by decide)]
      decide
    rw [routeHttp_authorised h.parsed ha,route_events (asks_method h) hpath,extractSince_asked h,Option.getD_none,
      eventsSseBody,since_zero hordered]
    have hiff := render_filter ctx.ring.events (fun e => n < e.1)
    simp only [decide_eq_true_eq] at hiff
    rw [← hiff]
    exact ⟨fun he => (Prod.mk.inj he).2,fun he => congrArg (Prod.mk 200) he⟩
  · intro target h hpre hno
    have hq : target.idxOf? questionMark=none := List.idxOf?_eq_none_iff.mpr hno
    have hpath : req.target buf=target := by
      rw [asks_target h,hq,Option.getD_none,List.take_length]
    have hnone : extractSince buf req.queryStart=none := by
      rw [asks_query h,hq]
      rfl
    rw [routeHttp_authorised h.parsed ha,route_events (asks_method h) (by rw [hpath]; exact hpre),hnone,
      Option.getD_none,eventsSseBody,since_zero hordered]
    rfl

end Cursor

def sampleToken : FixedBytes 64 := Token.hex (fixed 32 (List.replicate 32 0xab))

def sampleEvents : List EventTag := [.IntentAdmitted,.GrantExecuted]

def sampleCtx : RouteCtx where
  intents := Intent.Table.new
  resolver := ⟨[],[],[]⟩
  ring := ringAfter sampleEvents
  metrics := ⟨0⟩
  token := some sampleToken
  authRefused := 0
  wire := WireCounters.new
  handshakeReleasedTotal := 0
  ledgerInserts := 0
  ledgerStorefull := 0
  hsSlotsUsed := 0
  now := 0

/-- A GET with the token of the sample. -/
def sampleGet (target : Bytes) : Bytes :=
  getLine target++(crlf++(ascii "Authorization: Bearer "++sampleToken.toList++terminator))

theorem sampleGet_asks :
    Asks (sampleGet (sinceTarget 1)) (sinceTarget 1) ⟨.Get,4,14,some 15,0,123⟩ ∧
      Asks (sampleGet eventsPath) eventsPath ⟨.Get,4,14,none,0,115⟩ :=
  ⟨⟨⟨_,rfl⟩,by decide,by decide +kernel⟩,⟨_,rfl⟩,by decide,by decide +kernel⟩

theorem event_cursor_sample :
    ((routeHttp (sampleGet (sinceTarget 1)) sampleCtx).1=
        (200,render (sampleCtx.ring.events.filter (fun e => 1 < e.1))) ↔ ∀e∈sampleCtx.ring.events,1 < e.1) ∧
      (routeHttp (sampleGet eventsPath) sampleCtx).1=(200,render sampleCtx.ring.events) :=
  ⟨(event_cursor_iff sampleEvents sampleCtx _ _ rfl ⟨sampleToken,rfl,by decide +kernel⟩).1 1 sampleGet_asks.1,
    (event_cursor_iff sampleEvents sampleCtx _ _ rfl ⟨sampleToken,rfl,by decide +kernel⟩).2 eventsPath
      sampleGet_asks.2 List.prefix_rfl (by decide)⟩

/-- The second of two events is asked for, and both come. -/
theorem event_cursor_replays :
    (routeHttp (sampleGet (sinceTarget 1)) sampleCtx).1≠
        (200,render (sampleCtx.ring.events.filter (fun e => 1 < e.1))) ∧
      (routeHttp (sampleGet (sinceTarget 1)) sampleCtx).1=(200,render [(1,.IntentAdmitted),(2,.GrantExecuted)]) := by
  decide +kernel

end Bolina.Control
