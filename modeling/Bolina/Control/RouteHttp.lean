import Bolina.Control.HttpParse
import Bolina.Transport.Token

namespace Bolina.Control

open Codec Intent Transport ListSearch Utf8

/-- The names of the reject classes, in the order of their indices. -/
def rejectNames : List String :=
  ["binding","transport","parse","v_bad_version","v_bad_envelope_binding","v_bad_signature",
   "v_malformed_key","v_bad_approver_cert","v_bad_subject_cert","v_approver_revoked",
   "v_approver_out_of_scope","v_subject_revoked","v_subject_out_of_scope","v_wrong_executor",
   "v_wrong_subject","v_no_matching_intent","v_wrong_resource","v_action_digest_mismatch","v_expired",
   "v_already_consumed","v_wrong_body_type","v_seq_window_stale","v_equivocation","v_unknown_parents",
   "v_bad_control_body","d_bad_envelope","d_bad_body","d_unsupported_body","d_no_pending_intent",
   "d_unknown_sender","d_action_too_large","d_disk_error","r_malformed_canonical","r_set_full",
   "r_alias_pool_full","r_duplicate_entry","r_unknown_resource","r_ambiguous_resource","r_foreign_executor",
   "r_buffer_too_small","r_intent_table_full","r_intent_duplicate_id","r_intent_resource_held",
   "r_intent_not_pending","handshake_full"]

/-- Decimal digits. -/
def decimal (n : Nat) : Bytes := (Nat.toDigits 10 n).map (fun c => UInt8.ofNat c.toNat)

def EventTag.name : EventTag → Bytes
  | .IntentAdmitted => ascii "intent_admitted"
  | .IntentExpired => ascii "intent_expired"
  | .GrantExecuted => ascii "grant_executed"
  | .EffectRefused => ascii "effect_refused"
  | .RefusalApplied => ascii "refusal_applied"
  | .ControlApplied => ascii "control_applied"

/-- The events from the first one behind the cursor on. -/
def EventRing.since (r : EventRing) (since : Nat) : List (Nat × EventTag) :=
  r.events.drop ((r.events.findIdx? (fun e => since < e.1)).getD r.events.length)

/-- Two lines and an empty one. -/
def sseEvent (e : Nat × EventTag) : Bytes :=
  ascii "event: "++e.2.name++ascii "\ndata: "++decimal e.1++ascii "\n\n"

def eventsSseBody (r : EventRing) (since : Nat) : Bytes := (r.since since).flatMap sseEvent

def parseSince (target : List Char) : Option Nat := (parseDigits target).filter (fun n => n < 2^64)

/-- The cursor of a query: what stands between the byte behind `queryStart` and the next space. -/
def extractSince (buf : Bytes) (queryStart : Option Nat) : Option Nat := do
  let qs ← queryStart
  let s ← fromUtf8 ((buf.drop (qs+1)).takeWhile (fun b => b≠sp))
  parseSince s

def asciiLower (b : UInt8) : UInt8 := if 0x41 ≤ b ∧ b ≤ 0x5a then b+0x20 else b

def bearerNeedle : Bytes := ascii "authorization: bearer "

/-- The bytes before the terminator, or all of them. -/
def headOf (buf : Bytes) : Bytes := buf.take ((findSub terminator buf).getD buf.length)

theorem headOf_eq {buf : Bytes} {headEnd : Nat} (h : findSub terminator buf=some headEnd) :
    headOf buf=buf.take headEnd := by
  rw [headOf,h,Option.getD_some]

theorem headOf_length {buf : Bytes} {headEnd : Nat} (h : findSub terminator buf=some headEnd) :
    (headOf buf).length=headEnd := by
  have hle : headEnd+terminator.length ≤ buf.length := findSub_le h
  rw [headOf_eq h,List.length_take]
  omega

/-- The first place of the head that reads as the needle decides, up to the next carriage return. -/
def bearerOk (buf : Bytes) (expected : FixedBytes 64) : Bool :=
  let headers := headOf buf
  match findSub bearerNeedle (headers.map asciiLower) with
  | none => false
  | some i => Token.verify ((headers.drop (i+bearerNeedle.length)).takeWhile (fun b => b≠cr)) expected

def ApiError.status : ApiError → Nat
  | .BadRequest => 400
  | .Intent .NotPending => 400
  | .NotFound => 404
  | .MethodNotAllowed => 405
  | .UnsupportedMediaType => 415
  | .UnprocessableIntent => 422
  | .Resolve _ => 422
  | .Intent .ResourceHeld => 409
  | .Intent .TableFull => 503
  | .Intent .DuplicateIntentId => 202

def stateName : State → Bytes
  | .Pending => ascii "pending"
  | .Executing => ascii "executing"
  | .Rejected => ascii "rejected"
  | .Expired => ascii "expired"

def getIntentState (idBytes : Bytes) (intents : Table) : Except ApiError Bytes :=
  match intents.entries.find? (fun e => e.intentId==fixed 16 (idBytes.take lenIntentId)) with
  | none => .error .NotFound
  | some e => .ok (stateName e.state)

/-- What a request may touch. -/
structure RouteCtx where
  intents : Table
  resolver : Resolver
  ring : EventRing
  metrics : Metrics
  token : Option (FixedBytes 64)
  authRefused : Nat
  wire : WireCounters
  handshakeReleasedTotal : Nat
  ledgerInserts : Nat
  ledgerStorefull : Nat
  hsSlotsUsed : Nat
  now : UInt64

def metricLine (name : Bytes) (val : Nat) : Bytes := name++[sp]++decimal val++[lf]

/-- The three totals of the control plane are handed over as zero. -/
def metricsBody (ctx : RouteCtx) : Bytes :=
  metricLine (ascii "bolina_intents_admitted_total") ctx.metrics.admittedTotal++
    metricLine (ascii "bolina_ctl_requests_total") 0++
    metricLine (ascii "bolina_ctl_auth_refused_total") 0++
    metricLine (ascii "bolina_ctl_timeouts_total") 0++
    metricLine (ascii "bolina_wire_admissions_total") ctx.wire.admissionsTotal++
    metricLine (ascii "bolina_ledger_inserts_total") ctx.ledgerInserts++
    metricLine (ascii "bolina_ledger_storefull_total") ctx.ledgerStorefull++
    metricLine (ascii "bolina_handshake_released_total") ctx.handshakeReleasedTotal++
    metricLine (ascii "bolina_handshake_slots_used") ctx.hsSlotsUsed++
    (rejectNames.zip ctx.wire.rejects.toList).flatMap
      (fun r => metricLine (ascii "bolina_wire_rejects_total\x7bclass=\""++ascii r.1++ascii "\"\x7d") r.2)

abbrev HttpReply := Nat × Bytes

def forbidden : HttpReply := (403,ascii "forbidden\n")

def errorReply (e : ApiError) : HttpReply := (e.status,ascii "error\n")

def intentsPath : Bytes := ascii "/v1/intents"
def intentPath : Bytes := ascii "/v1/intents/"
def eventsPath : Bytes := ascii "/v1/events"
def healthzPath : Bytes := ascii "/healthz"
def metricsPath : Bytes := ascii "/metrics"

def Request.target (req : Request) (buf : Bytes) : Bytes :=
  (buf.drop req.targetStart).take (req.targetEnd-req.targetStart)

def Request.body (req : Request) (buf : Bytes) : Bytes := (buf.drop req.bodyStart).take req.contentLength

/-- A post goes to the intents; its outcome is the status. -/
def routePost (body : Bytes) (ctx : RouteCtx) : HttpReply × RouteCtx :=
  let r := postIntent (fromUtf8Lossy body) ctx.resolver ctx.intents ctx.metrics ctx.ring ctx.now
  let reply :=
    match r.1 with
    | .ok .Accepted => (202,ascii "accepted\n")
    | .ok .AcceptedIdempotent => (202,ascii "idempotent\n")
    | .error e => errorReply e
  (reply,{ ctx with intents := r.2.1,metrics := r.2.2.1,ring := r.2.2.2 })

def routeGetIntent (idHex : Bytes) (ctx : RouteCtx) : HttpReply :=
  match parseIdHex ((fromUtf8 idHex).getD []) with
  | none => errorReply .BadRequest
  | some id =>
    match getIntentState id ctx.intents with
    | .error e => errorReply e
    | .ok state => (200,state++[lf])

/-- The routes, in the order in which they are tried. -/
def route (req : Request) (buf : Bytes) (ctx : RouteCtx) : HttpReply × RouteCtx :=
  let target := req.target buf
  if req.method=.Get ∧ target=healthzPath then ((200,ascii "ok\n"),ctx)
  else if req.method=.Post ∧ target=intentsPath then routePost (req.body buf) ctx
  else if req.method=.Get ∧ intentPath.isPrefixOf target=true then
    (routeGetIntent (target.drop intentPath.length) ctx,ctx)
  else if req.method=.Get ∧ eventsPath.isPrefixOf target=true then
    ((200,eventsSseBody ctx.ring ((extractSince buf req.queryStart).getD 0)),ctx)
  else if req.method=.Get ∧ target=metricsPath then ((200,metricsBody ctx),ctx)
  else ((404,ascii "not found\n"),ctx)

/-- With a token every request is asked for it; without one all but the health check is refused. -/
def routeHttp (buf : Bytes) (ctx : RouteCtx) : HttpReply × RouteCtx :=
  match parse buf with
  | .error _ => ((400,ascii "bad request\n"),ctx)
  | .ok req =>
    match ctx.token with
    | some expected =>
      if bearerOk buf expected=false then (forbidden,{ ctx with authRefused := ctx.authRefused+1 })
      else route req buf ctx
    | none => if req.target buf≠healthzPath then (forbidden,ctx) else route req buf ctx

end Bolina.Control
