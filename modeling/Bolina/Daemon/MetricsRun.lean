import Bolina.Control.Clients
import Bolina.Control.MetricsText
import Bolina.Daemon.BoundSession

namespace Bolina

open Codec Intent State Transport Control Noise

def Endpoint.handshakeSlotsUsed (e : Endpoint) : Nat :=
  (List.finRange Handshake.maxSessions).countP (fun i => (e.hs.slots i).isSome)

/-- The daemon with what its control plane counts and asks for. -/
structure Controlled where
  endpoint : Endpoint
  metrics : Metrics
  token : Option (FixedBytes 64)
  ctlRequests : Nat
  ctlAuthRefused : Nat

/-- A datagram or a sweep, or a request that a client has completed. -/
inductive Tick where
  | input (x : Input)
  | request (buf : Bytes) (now : UInt64)

def Tick.isRequest : Tick → Bool
  | .input _ => false
  | .request _ _ => true

/-- The request is complete and is refused for its token. -/
def tokenRefused (token : Option (FixedBytes 64)) (buf : Bytes) : Bool :=
  match parse buf with
  | .error _ => false
  | .ok _ =>
    match token with
    | none => false
    | some expected => !bearerOk buf expected

def Tick.refusedBy (token : Option (FixedBytes 64)) : Tick → Bool
  | .input _ => false
  | .request buf _ => tokenRefused token buf

namespace Controlled

def boot (S : Suite) (keys : Keys) (resolver : Resolver) (ledger : Option GrantLedger) (disk : Disk)
    (token : Option (FixedBytes 64)) : Controlled :=
  ⟨Endpoint.boot S keys resolver ledger disk,⟨0⟩,token,0,0⟩

/-- What the daemon lends to a request. -/
def ctx (s : Controlled) (now : UInt64) : RouteCtx where
  intents := s.endpoint.daemon.intents
  resolver := s.endpoint.daemon.resolver
  ring := s.endpoint.daemon.ring
  metrics := s.metrics
  token := s.token
  authRefused := s.ctlAuthRefused
  wire := s.endpoint.daemon.wire
  handshakeReleasedTotal := s.endpoint.handshakeReleasedTotal
  ledgerInserts := s.endpoint.mem.insertsTotal
  ledgerStorefull := s.endpoint.mem.storefullTotal
  hsSlotsUsed := s.endpoint.handshakeSlotsUsed
  now

/-- What a request has changed of it. -/
def absorb (s : Controlled) (ctx : RouteCtx) : Controlled where
  endpoint := { s.endpoint with daemon := { s.endpoint.daemon with intents := ctx.intents,ring := ctx.ring } }
  metrics := ctx.metrics
  token := s.token
  ctlRequests := s.ctlRequests
  ctlAuthRefused := ctx.authRefused

def count (s : Controlled) : Controlled := { s with ctlRequests := s.ctlRequests+1 }

/-- A request is counted before it is routed. -/
def answer (s : Controlled) (now : UInt64) (buf : Bytes) : HttpReply × Controlled :=
  let r := routeHttp buf (s.count.ctx now)
  (r.1,s.count.absorb r.2)

/-- The value of a counter. -/
def value (s : Controlled) : Counter → Nat
  | .admitted => s.metrics.admittedTotal
  | .ctlRequests => s.ctlRequests
  | .ctlAuthRefused => s.ctlAuthRefused
  | .wireAdmissions => s.endpoint.daemon.wire.admissionsTotal
  | .ledgerInserts => s.endpoint.mem.insertsTotal
  | .ledgerStorefull => s.endpoint.mem.storefullTotal
  | .handshakeReleased => s.endpoint.handshakeReleasedTotal
  | .slotsUsed => s.endpoint.handshakeSlotsUsed
  | .rejects c => s.endpoint.daemon.wire.rejects.get ⟨c.index,c.index_lt⟩

/-- The text has one line for every counter of the daemon, and it gives the counter's value. -/
def Faithful (body : Bytes) (s : Controlled) : Prop := ∀c,Stated body c (s.value c)

section Step

variable (S : Suite) (A : Aead) (keys : Keys)

/-- `none` when the process ends in a panic. -/
def step (s : Controlled) : Tick → Option Controlled
  | .input x => (s.endpoint.step S A keys x).map (fun ea => { s with endpoint := ea.1 })
  | .request buf now => some (s.answer now buf).2

def tick (o : Option Controlled) (x : Tick) : Option Controlled := o.bind (fun s => s.step S A keys x)

def run (s : Controlled) (xs : List Tick) : Option Controlled := xs.foldl (tick S A keys) (some s)

end Step

section Requests

variable {S : Suite} {A : Aead} {keys : Keys} {s s' : Controlled} {buf : Bytes} {now : UInt64} {ctx : RouteCtx}

/-- The routes move the intents, the counter of the admissions and the ring. -/
theorem route_frame (req : Request) (buf : Bytes) (ctx : RouteCtx) :
    ∃intents metrics ring,(route req buf ctx).2={ ctx with intents,metrics,ring } := by
  simp only [route]
  split_ifs <;> exact ⟨_,_,_,rfl⟩

/-- What a request leaves of what it was lent. -/
theorem routeHttp_frame (buf : Bytes) (ctx : RouteCtx) : ∃intents metrics ring,
    (routeHttp buf ctx).2=
      { ctx with intents,metrics,ring,authRefused := ctx.authRefused+(tokenRefused ctx.token buf).toNat } := by
  rw [routeHttp,tokenRefused.eq_def]
  cases hp : parse buf with
  | error e => exact ⟨_,_,_,rfl⟩
  | ok req =>
    obtain ⟨intents,metrics,ring,hroute⟩ := route_frame req buf ctx
    obtain ⟨_,_,_,_,token,_,_,_,_,_,_,_⟩ := ctx
    dsimp only at hroute ⊢
    cases token with
    | none =>
      dsimp only
      split
      · exact ⟨_,_,_,rfl⟩
      · exact ⟨intents,metrics,ring,hroute⟩
    | some expected =>
      dsimp only
      cases hb : bearerOk buf expected with
      | false =>
        rw [if_pos rfl]
        exact ⟨_,_,_,rfl⟩
      | true =>
        rw [if_neg (by decide)]
        exact ⟨intents,metrics,ring,hroute⟩

/-- What a request leaves is lent to the next one. -/
theorem absorb_ctx (s : Controlled) (now : UInt64) (buf : Bytes) :
    (s.absorb (routeHttp buf (s.ctx now)).2).ctx now=(routeHttp buf (s.ctx now)).2 := by
  obtain ⟨intents,metrics,ring,hframe⟩ := routeHttp_frame buf (s.ctx now)
  rw [hframe]
  rfl

theorem answer_counts (s : Controlled) (now : UInt64) (buf : Bytes) :
    (s.answer now buf).2.token=s.token ∧ (s.answer now buf).2.ctlRequests=s.ctlRequests+1 ∧
      (s.answer now buf).2.ctlAuthRefused=s.ctlAuthRefused+(tokenRefused s.token buf).toNat := by
  obtain ⟨intents,metrics,ring,hframe⟩ := routeHttp_frame buf (s.count.ctx now)
  refine ⟨rfl,rfl,?_⟩
  change (routeHttp buf (s.count.ctx now)).2.authRefused=_
  rw [hframe]
  rfl

/-- A daemon that has ended stays so. -/
theorem tick_none (xs : List Tick) : xs.foldl (tick S A keys) none=none := by
  induction xs with
  | nil => rfl
  | cons x xs ih => exact ih

/-- The counters of the control plane count the requests of the run, and those that were
refused for their token. -/
theorem run_counts (xs : List Tick) (h : s.run S A keys xs=some s') :
    s'.token=s.token ∧ s'.ctlRequests=s.ctlRequests+xs.countP Tick.isRequest ∧
      s'.ctlAuthRefused=s.ctlAuthRefused+xs.countP (Tick.refusedBy s.token) := by
  induction xs generalizing s with
  | nil =>
    cases h
    exact ⟨rfl,rfl,rfl⟩
  | cons x xs ih =>
    cases x with
    | input x =>
      cases hx : s.endpoint.step S A keys x with
      | none =>
        have hnone : s.run S A keys (.input x::xs)=xs.foldl (tick S A keys) none := by
          rw [run,List.foldl_cons,tick,Option.bind_some,step,hx]
          rfl
        rw [hnone,tick_none] at h
        cases h
      | some ea =>
        have hsome : s.run S A keys (.input x::xs)=({ s with endpoint := ea.1 } : Controlled).run S A keys xs := by
          rw [run,List.foldl_cons,tick,Option.bind_some,step,hx]
          rfl
        rw [hsome] at h
        exact @ih { s with endpoint := ea.1 } h
    | request buf now =>
      obtain ⟨htoken,hrequests,hrefused⟩ := answer_counts s now buf
      obtain ⟨ht,hr,ha⟩ := ih (s := (s.answer now buf).2) h
      rw [ht,hr,ha,htoken,hrequests,hrefused]
      refine ⟨rfl,?_,?_⟩
      · rw [List.countP_cons_of_pos rfl]
        omega
      · rw [List.countP_cons]
        change _=s.ctlAuthRefused+(xs.countP (Tick.refusedBy s.token)+
          if tokenRefused s.token buf=true then 1 else 0)
        cases tokenRefused s.token buf with
        | false => rfl
        | true =>
          simp only [Bool.toNat_true,if_true]
          omega

end Requests

section Passes

variable {S : Suite} {A : Aead} {keys : Keys}

/-- The control plane of the daemon, and the daemon behind a pass of it. -/
def plane (s : Controlled) (clients : List Connection) (now : UInt64) : Plane := ⟨clients,s.ctlRequests,s.ctx now⟩

def behindPass (s : Controlled) (p : Plane) : Controlled := { s.absorb p.ctx with ctlRequests := p.requests }

/-- The requests of one pass, one after the other. -/
def answers (s : Controlled) (now : UInt64) (bufs : List Bytes) : Controlled :=
  bufs.foldl (fun s buf => (s.answer now buf).2) s

theorem answers_pass (s : Controlled) (now : UInt64) (bufs : List Bytes) (clients : List Connection) :
    s.answers now bufs=
      s.behindPass ⟨clients,s.ctlRequests+bufs.length,bufs.foldl (fun ctx buf => (routeHttp buf ctx).2) (s.ctx now)⟩ := by
  induction bufs generalizing s with
  | nil => rfl
  | cons buf bufs ih =>
    have hctx : (s.answer now buf).2.ctx now=(routeHttp buf (s.ctx now)).2 := absorb_ctx s.count now buf
    have hstep : s.answers now (buf::bufs)=((s.answer now buf).2).answers now bufs := rfl
    rw [hstep,ih,hctx,List.foldl_cons]
    have hcount : (s.answer now buf).2.ctlRequests+bufs.length=s.ctlRequests+(buf::bufs).length := by
      change s.ctlRequests+1+bufs.length=_
      rw [List.length_cons]
      omega
    rw [hcount]
    rfl

/-- A pass of the control plane that ends well answers requests and does nothing else. -/
theorem pass_answers {s : Controlled} {clients : List Connection} {accept : AcceptOutcome} {io : Nat → ClientIo}
    {now : UInt64} {p : Plane} (h : (s.plane clients now).pollControl accept io=some (.ok p)) :
    ∃bufs,s.behindPass p=s.answers now bufs := by
  rw [Plane.pollControl,pollTick] at h
  cases haccept : acceptClient (s.plane clients now).clients accept with
  | error e =>
    rw [haccept] at h
    cases h
  | ok table =>
    rw [haccept] at h
    cases hadvance : Control.advance (withIo table io) with
    | none =>
      simp only [hadvance,Option.map_none] at h
      cases h
    | some kept =>
      simp only [hadvance,Option.map_some] at h
      have hserve := Option.some.inj h
      obtain ⟨kept',hkept,hcalm⟩ := round_calm { s.plane clients now with clients := [] } (calm_round hadvance hserve)
      rw [hadvance] at hkept
      rw [← Option.some.inj hkept,hserve] at hcalm
      refine ⟨calls (withIo table io),?_⟩
      rw [Except.ok.inj hcalm,answers_pass s now _ ([]++fates (withIo table io))]
      rfl

end Passes

/-- A complete request for the metrics. -/
structure AsksMetrics (buf : Bytes) (req : Request) : Prop where
  parsed : parse buf=.ok req
  method : req.method=.Get
  target : req.target buf=metricsPath

section Text

variable {s : Controlled} {buf : Bytes} {req : Request} {now : UInt64} {ctx : RouteCtx}

theorem metrics_answered (h : AsksMetrics buf req) (ha : Authorised buf ctx) :
    (routeHttp buf ctx).1=(200,metricsBody ctx) := by
  rw [routeHttp_authorised h.parsed ha]
  rw [route.eq_def]
  dsimp only
  rw [h.method,h.target,if_neg (by decide),if_neg (by decide),if_neg (by decide),if_neg (by decide),if_pos ⟨rfl,rfl⟩]

theorem answer_metrics (s : Controlled) (now : UInt64) {buf : Bytes} {req : Request} (h : AsksMetrics buf req)
    (ha : Authorised buf (s.count.ctx now)) : (s.answer now buf).1=(200,metricsBody (s.count.ctx now)) :=
  metrics_answered h ha

/-- The lines that are handed their counters give them. -/
theorem value_shown (s : Controlled) (now : UInt64) (c : Counter) (hr : c≠.ctlRequests) (ha : c≠.ctlAuthRefused) :
    s.value c=c.shown (s.ctx now) := by
  cases c with
  | ctlRequests => exact absurd rfl hr
  | ctlAuthRefused => exact absurd rfl ha
  | _ => rfl

/-- The line of the requests is wrong in every answer, since the answer has been counted. -/
theorem requests_unstated (s : Controlled) (now : UInt64) :
    ¬Stated (metricsBody (s.count.ctx now)) .ctlRequests (s.count.value .ctlRequests) := by
  rw [stated_iff]
  exact Nat.succ_ne_zero _

theorem refused_stated (s : Controlled) (now : UInt64) :
    Stated (metricsBody (s.ctx now)) .ctlAuthRefused (s.value .ctlAuthRefused) ↔ s.ctlAuthRefused=0 :=
  stated_iff _ _ _

end Text

end Controlled

open Controlled

/-- In every state that a daemon reaches, no request for the metrics is answered with a
text that is faithful: the line of the requests never is, that of the refusals is so long as
no request of the run was refused for its token, and all the others are. -/
theorem metrics_unfaithful (S : Suite) (A : Aead) (keys : Keys) (resolver : Resolver) (ledger : Option GrantLedger)
    (disk : Disk) (token : Option (FixedBytes 64)) (xs : List Tick) (s : Controlled)
    (hs : (Controlled.boot S keys resolver ledger disk token).run S A keys xs=some s) (buf : Bytes) (req : Request)
    (now : UInt64) (hasks : AsksMetrics buf req) (hauth : Authorised buf (s.count.ctx now)) :
    ∃body,(s.answer now buf).1=(200,body) ∧ ¬Faithful body s.count ∧
      ∀c,Stated body c (s.count.value c) ↔
        c≠.ctlRequests ∧ (c=.ctlAuthRefused → ∀x∈xs,x.refusedBy token=false) := by
  refine ⟨metricsBody (s.count.ctx now),answer_metrics s now hasks hauth,?_,?_⟩
  · intro hf
    exact requests_unstated s now (hf .ctlRequests)
  · intro c
    by_cases hr : c=.ctlRequests
    · rw [hr]
      exact iff_of_false (requests_unstated s now) (fun h => h.1 rfl)
    by_cases ha : c=.ctlAuthRefused
    · rw [ha,refused_stated]
      obtain ⟨-,-,hcount⟩ := run_counts xs hs
      have hzero : s.count.ctlAuthRefused=xs.countP (Tick.refusedBy token) := hcount.trans (Nat.zero_add _)
      rw [hzero,List.countP_eq_zero]
      simp
    · rw [stated_iff,value_shown s.count now c hr ha]
      exact iff_of_true rfl ⟨hr,fun h => absurd h ha⟩

def sampleControlled : Controlled :=
  .boot sampleSuite responderKeys ⟨[],[],[]⟩ none ⟨[],none,[]⟩ (some sampleToken)

/-- A request without a token. -/
def bareGet : Bytes := getLine metricsPath++terminator

theorem bareGet_refused : tokenRefused (some sampleToken) bareGet=true := by decide +kernel

theorem sampleGet_metrics : AsksMetrics (sampleGet metricsPath) ⟨.Get,4,12,none,0,113⟩ :=
  ⟨by decide +kernel,rfl,by decide +kernel⟩

theorem sampleGet_authorised : bearerOk (sampleGet metricsPath) sampleToken=true := by decide +kernel

/-- The daemon behind a request that it has refused. -/
def refusedOnce : Controlled := (sampleControlled.answer 0 bareGet).2

theorem metrics_unfaithful_sample :
    ∃body,(refusedOnce.answer 0 (sampleGet metricsPath)).1=(200,body) ∧
      ¬Faithful body refusedOnce.count ∧
      ∀c,Stated body c (refusedOnce.count.value c) ↔
        c≠.ctlRequests ∧
          (c=.ctlAuthRefused → ∀x∈[Tick.request bareGet 0],x.refusedBy (some sampleToken)=false) :=
  metrics_unfaithful sampleSuite chachaPoly responderKeys ⟨[],[],[]⟩ none ⟨[],none,[]⟩ (some sampleToken)
    [.request bareGet 0] refusedOnce rfl (sampleGet metricsPath) _ 0 sampleGet_metrics
    ⟨sampleToken,rfl,sampleGet_authorised⟩

/-- One request was refused, the next is answered: two have been counted and one refused,
and the text says none of either. -/
theorem metrics_forget :
    refusedOnce.count.ctlRequests=2 ∧
      refusedOnce.count.ctlAuthRefused=1 ∧
      ∃body,(refusedOnce.answer 0 (sampleGet metricsPath)).1=(200,body) ∧
        Stated body .ctlRequests 0 ∧ Stated body .ctlAuthRefused 0 ∧
        ¬Faithful body refusedOnce.count := by
  obtain ⟨-,-,hrefused⟩ := answer_counts sampleControlled 0 bareGet
  have hone : (tokenRefused sampleControlled.token bareGet).toNat=1 := congrArg Bool.toNat bareGet_refused
  refine ⟨rfl,?_,metricsBody (refusedOnce.count.ctx 0),
    answer_metrics refusedOnce 0 sampleGet_metrics ⟨sampleToken,rfl,sampleGet_authorised⟩,?_,?_,?_⟩
  · exact hrefused.trans (congrArg (sampleControlled.ctlAuthRefused+·) hone)
  · exact (stated_iff _ .ctlRequests 0).mpr rfl
  · exact (stated_iff _ .ctlAuthRefused 0).mpr rfl
  · intro hf
    exact requests_unstated _ _ (hf .ctlRequests)

end Bolina
