import Bolina.Client.Campaign
import Bolina.Client.Reply
import Bolina.Daemon.EvidenceRun

namespace Bolina.Client

open Control Utf8 ListSearch Breaks Transport PartialRun NumberedLog Controlled
open Codec (bodyUtterance)
open Evidence (maxEnvelopes)
open State (GrantLedger Disk)
open Noise (Suite sampleSuite chachaPoly)

/-- A client that the daemon takes in and reads in one pass; nothing comes where the router is not called. -/
def served (s : Controlled) (now : UInt64) (request : Bytes) : Except HttpError Bytes :=
  match ((ClientSlot.live .new).pass ⟨false,.data request,none⟩).2 with
  | none => .ok []
  | some buf => .ok (response (s.answer now buf).1)

section Served

variable {s : Controlled} {now : UInt64} {m : Control.Method} {path : Bytes} {body token : Option Bytes}
  {expected : FixedBytes 64}

theorem errorStatus_lt (e : ApiError) : e.status < 2^16 := by
  cases e with
  | Intent e => cases e <;> decide
  | Resolve e => exact (by decide : 422 < 2^16)
  | _ => decide

theorem errorReply_lt (e : ApiError) : (errorReply e).1 < 2^16 := errorStatus_lt e

theorem forbidden_read : readReply (response forbidden)=.ok (403,"forbidden\n".toList) := by
  have htext : fromUtf8Lossy forbidden.2="forbidden\n".toList := by decide
  rw [readReply_response forbidden (by decide),htext]
  rfl

theorem route_lt (req : Control.Request) (buf : Bytes) (ctx : RouteCtx) : (route req buf ctx).1.1 < 2^16 := by
  rw [route]
  split_ifs
  · simp
  · rw [routePost]
    dsimp only
    split
    · decide
    · decide
    · exact errorStatus_lt _
  · rw [routeGetIntent]
    split
    · exact errorReply_lt .BadRequest
    · split
      · exact errorReply_lt _
      · simp
  · simp
  · simp
  · simp

/-- What a client of the harness is told whose request comes in at one read: the answer of the route under the token, and
a refusal without it. -/
theorem served_reply (ht : s.token=some expected) (hp : Plain path token) (hpost : m=.Post → body.getD []≠[])
    (hcap : (body.getD []).length ≤ bodyCap) (hread : (requestBytes (verb m) path body token).length ≤ readSize) :
    httpRequest (served s now) (verb m) path body token=
      let r := route (requestOf m path (body.getD []).length token) (requestBytes (verb m) path body token) (s.count.ctx now)
      if token=some expected.toList then .ok (r.1.1,fromUtf8Lossy r.1.2) else .ok (403,"forbidden\n".toList) := by
  have hparse := request_parses hp hpost hcap
  have hbearer := request_bearer hp m body expected
  have htoken : (s.count.ctx now).token=some expected := ht
  rw [httpRequest,served,request_routed hp hpost hcap hread]
  dsimp only
  rw [Controlled.answer]
  dsimp only
  rw [routeHttp,hparse]
  dsimp only
  rw [htoken]
  dsimp only
  by_cases htok : token=some expected.toList
  · rw [if_pos htok,if_neg (by rw [hbearer.mpr htok]; decide)]
    exact readReply_response _ (route_lt _ _ _)
  · have hno : bearerOk (requestBytes (verb m) path body token) expected=false := by
      rw [Bool.eq_false_iff]
      exact fun h => htok (hbearer.mp h)
    rw [if_neg htok,if_pos hno]
    exact forbidden_read

theorem route_metrics {req : Control.Request} {buf : Bytes} {ctx : RouteCtx} (hm : req.method=.Get)
    (ht : req.target buf=metricsPath) : route req buf ctx=((200,metricsBody ctx),ctx) := by
  have hhealthz : metricsPath≠healthzPath := by decide
  have hintent : intentPath.isPrefixOf metricsPath=false := by decide
  have hevents : eventsPath.isPrefixOf metricsPath=false := by decide
  simp [route,hm,ht,hhealthz,hintent,hevents]

end Served

section Hex

theorem hex_printable (secret : FixedBytes 32) : Printable (Token.hex secret).toList := by
  have hbyte : ∀b : UInt8,Printable (Token.hexByte b) := by
    intro b
    have hall : ∀n : Fin 256,Printable (Token.hexByte (UInt8.ofNat n)) := by decide +kernel
    have hb := hall ⟨b.toNat,b.toNat_lt⟩
    rwa [UInt8.ofNat_toNat] at hb
  intro c hc
  rw [Token.hex_toList] at hc
  obtain ⟨b,_,hb⟩ := List.mem_flatMap.mp hc
  exact hbyte b c hb

/-- A request without a body comes in at one read where its path and its token are not too long. -/
theorem request_short (m : Control.Method) {path : Bytes} {token : Option Bytes} (hpath : path.length ≤ 1024)
    (htoken : ∀t∈token,t.length ≤ 1024) : (requestBytes (verb m) path none token).length ≤ readSize := by
  have hverb : (verb m).length ≤ 4 := by
    cases m <;> decide
  have hread : readSize=4096 := rfl
  have hzero : (decimal 0).length=1 := by decide
  have hfixed : (ascii " HTTP/1.1\r\nHost: harness\r\nContent-Type: application/json\r\n").length ≤ 100 ∧
      (ascii "\r\nConnection: close\r\n\r\n").length ≤ 100 ∧ (ascii "Content-Length: ").length ≤ 100 ∧
      (ascii "Authorization: Bearer ").length ≤ 100 ∧ (ascii "\r\n").length ≤ 100 ∧ (ascii " ").length ≤ 100 := by
    decide
  obtain ⟨h1,h2,h3,h4,h5,h6⟩ := hfixed
  have hauth : ((token.map (fun t => ascii "Authorization: Bearer "++t++ascii "\r\n")).getD []).length ≤ 1224 := by
    cases token with
    | none => simp
    | some t =>
      have ht := htoken t rfl
      rw [Option.map_some,Option.getD_some,List.length_append,List.length_append]
      omega
  rw [requestBytes,Option.getD_none,List.length_nil]
  simp only [List.length_append,List.length_nil]
  omega

end Hex

section Events

variable {s : Controlled} {ring : EventRing} {log : List EventTag} {token : Option Bytes} {expected : FixedBytes 64}

theorem sinceTarget_visible (n : Nat) : ∀b∈sinceTarget n,0x21 ≤ b ∧ b < 0x80 := by
  have hfront : ∀b∈eventsPath++ascii "?since=",0x21 ≤ b ∧ b < 0x80 := List.all_iff_forall_prop.mp (by decide)
  intro b hb
  rcases List.mem_append.mp hb with hb | hb
  · exact hfront b hb
  · obtain ⟨hlow,hhigh⟩ := (isDigitByte_iff b).mp (decimal_isDigit n b hb)
    rw [UInt8.le_iff_toNat_le,UInt8.lt_iff_toNat_lt]
    have hspace : (0x21 : UInt8).toNat=0x21 := rfl
    have htop : (0x80 : UInt8).toNat=0x80 := rfl
    omega

/-- The client asks for the events behind a number. -/
theorem request_asks {n : Nat} (hp : Plain (sinceTarget n) token) :
    Asks (requestBytes (verb .Get) (sinceTarget n) none token) (sinceTarget n) (requestOf .Get (sinceTarget n) 0 token) where
  bytes := by
    obtain ⟨line,more,-,hhead⟩ := requestHead_cons .Get (sinceTarget n) 0 token
    have hline : requestLine (verb .Get) (sinceTarget n)=getLine (sinceTarget n) := (getLine_eq _).symm
    refine ⟨joined cr lf line more++terminator,?_⟩
    rw [requestBytes_eq,Option.getD_none,List.length_nil,hhead,hline]
    simp [crlf]
  noCr := fun hm => absurd (sinceTarget_visible n cr hm).1 (by decide)
  parsed := request_parses hp (fun h => nomatch h) (Nat.zero_le _)

/-- The ring numbers its events from one, so none of them is behind zero. -/
theorem since_all (h : Keeps ring log) : ring.since 0=kept ringCap log := by
  rw [keeps_since h,List.filter_eq_self]
  intro e he
  obtain ⟨hpos,-⟩ := mem_numbered.mp (List.mem_of_mem_drop he)
  exact decide_eq_true hpos

theorem route_since {req : Control.Request} {buf : Bytes} {ctx : RouteCtx} (ha : Asks buf (sinceTarget 0) req)
    (hk : Keeps ctx.ring log) : (route req buf ctx).1=(200,(kept ringCap log).flatMap sseEvent) := by
  have hpath : eventsPath <+: req.target buf := by
    rw [asks_target ha,sinceTarget_query,Option.getD_some,sinceTarget,List.append_assoc,
      List.take_append_of_le_length (by decide)]
    decide
  rw [route_events (asks_method ha) hpath,extractSince_asked ha,Option.getD_none,eventsSseBody,since_all hk]

/-- The client reads what the ring keeps. -/
theorem events_read (ht : s.token=some expected) (hp : Plain (sinceTarget 0) token)
    (hread : (requestBytes (verb .Get) (sinceTarget 0) none token).length ≤ readSize)
    (hk : Keeps s.endpoint.daemon.ring log) (hlog : log.length < 2^64) (now : UInt64) :
    ∃text,httpRequest (served s now) (verb .Get) (sinceTarget 0) none token=
        (if token=some expected.toList then .ok (200,text) else .ok (403,"forbidden\n".toList)) ∧
      parseSse text=(kept ringCap log).map (fun e => (asciiText e.2.name,e.1)) := by
  have hring : Keeps (s.count.ctx now).ring log := hk
  refine ⟨fromUtf8Lossy ((kept ringCap log).flatMap sseEvent),?_,?_⟩
  · have hreply := @served_reply s now .Get _ none token expected ht hp (fun h => by cases h) (Nat.zero_le _) hread
    have hroute := route_since (request_asks hp) hring
    rw [hreply]
    simp only [Option.getD_none,List.length_nil,hroute]
  · rw [lossy_ascii (sse_ascii _),parseSse_events]
    intro e he
    exact Nat.lt_of_le_of_lt (numbered_le (List.mem_of_mem_drop he)) hlog

end Events

/-- Under the token, the client reads the newest events of the deeds that the run was made of, in their order and with
their numbers; under another that comes in at one read, or without one, nothing but a refusal. -/
theorem client_reads_events (S : Suite) (A : Transport.Aead) (keys : Keys) (resolver : Resolver)
    (ledger : Option GrantLedger) (disk : Disk) (secret : FixedBytes 32) (xs : List Tick) (now : UInt64)
    (hlen : xs.length < 2^64) :
    let boot := Controlled.boot S keys resolver ledger disk (some (Token.hex secret))
    ∃s,∃ws : List (Tick × Deed),boot.run S A keys xs=some s ∧ ws.map Prod.fst=xs ∧
      Explained (fun s x => s.step S A keys x) (Justified S A keys) boot ws s ∧ AccountedBy s (ws.map Prod.snd) ∧
      ∀token,Plain (sinceTarget 0) token →
        (requestBytes (verb .Get) (sinceTarget 0) none token).length ≤ readSize →
        ∃text,httpRequest (served s now) (verb .Get) (sinceTarget 0) none token=
            (if token=some (Token.hex secret).toList then .ok (200,text) else .ok (403,"forbidden\n".toList)) ∧
          parseSse text=
            (kept ringCap ((ws.map Prod.snd).filterMap Deed.tag)).map (fun e => (asciiText e.2.name,e.1)) := by
  intro boot
  obtain ⟨s,ws,hrun,hws,hex,hfold⟩ := boot_explained S A keys resolver ledger disk (some (Token.hex secret)) xs
  obtain ⟨haccounted,-,-⟩ := accounted_boot S keys resolver ledger disk (some (Token.hex secret)) _ hfold
  have htoken : s.token=some (Token.hex secret) := (run_counts xs hrun).1
  have hlog : ((ws.map Prod.snd).filterMap Deed.tag).length < 2^64 := by
    have hle := List.length_filterMap_le Deed.tag (ws.map Prod.snd)
    have hsame : (ws.map Prod.snd).length=xs.length := by
      rw [← hws,List.length_map,List.length_map]
    omega
  refine ⟨s,ws,hrun,hws,hex,haccounted,?_⟩
  intro token hp hread
  exact events_read htoken hp hread haccounted.ring hlog now

/-- A daemon that declares the sample's resources and has the token. -/
def listening : Controlled :=
  .boot sampleSuite responderKeys sampleDispatch.resolver none ⟨[],none,[]⟩ (some sampleToken)

/-- Behind the post of an intent the client reads its one event under the token, and nothing without it. -/
theorem client_reads_events_sample : ∃s text,
    listening.run sampleSuite chachaPoly responderKeys [.request postedRequest 1000000]=some s ∧
      httpRequest (served s 1000001) (verb .Get) (sinceTarget 0) none (some sampleToken.toList)=.ok (200,text) ∧
      parseSse text=[(asciiText EventTag.IntentAdmitted.name,1)] ∧
      httpRequest (served s 1000001) (verb .Get) (sinceTarget 0) none none=.ok (403,"forbidden\n".toList) := by
  obtain ⟨s,ws,hrun,hws,-,hacc,hread⟩ := client_reads_events sampleSuite chachaPoly responderKeys sampleDispatch.resolver
    none ⟨[],none,[]⟩ (fixed 32 (List.replicate 32 0xab)) [.request postedRequest 1000000] 1000001 (by decide)
  have hadmitted : s.metrics.admittedTotal=1 := by
    have hs : (listening.answer 1000000 postedRequest).2=s := Option.some.inj hrun
    rw [← hs]
    decide +kernel
  obtain ⟨⟨x,d⟩,rfl⟩ : ∃w,ws=[w] := by
    apply List.length_eq_one_iff.mp
    rw [← List.length_map Prod.fst,hws]
    rfl
  have hposted := hacc.posted
  rw [hadmitted] at hposted
  have htags : ([(x,d)].map Prod.snd).filterMap Deed.tag=[.IntentAdmitted] := by
    cases d with
    | posted entry => rfl
    | _ => cases hposted
  have hprintable : Printable sampleToken.toList := hex_printable _
  have hpath := sinceTarget_visible 0
  obtain ⟨text,htext,hparse⟩ := hread (some sampleToken.toList)
    ⟨hpath,fun t ht => by cases ht; exact hprintable⟩ (request_short .Get (by decide) (by decide))
  obtain ⟨_,hrefused,-⟩ := hread none ⟨hpath,by simp⟩ (request_short .Get (by decide) (by decide))
  rw [htags] at hparse
  exact ⟨s,text,hrun,htext.trans (if_pos rfl),hparse,hrefused⟩

/-- The growth of the counters is what was sent. -/
def Accounts (base stop : MetricsSnapshot) (sent : Nat) : Prop :=
  stop.inserts-base.inserts+(stop.storefull-base.storefull)=sent

/-- The counters of the text have 64 bits. -/
def Wide (s : Controlled) (now : UInt64) : Prop := ∀row∈metricRows (s.count.ctx now),row.2 < 2^64

instance (s : Controlled) (now : UInt64) : Decidable (Wide s now) :=
  inferInstanceAs (Decidable (∀row∈metricRows (s.count.ctx now),row.2 < 2^64))

section Volume

variable {s : Controlled} {expected : FixedBytes 64}

theorem metrics_read (ht : s.token=some expected) (hp : Printable expected.toList) (now : UInt64) (hw : Wide s now) :
    readMetrics (served s now) (some expected.toList)=.ok (snapshotOf (s.count.ctx now)) := by
  have hpath : ∀b∈metricsPath,0x21 ≤ b ∧ b < 0x80 := List.all_iff_forall_prop.mp (by decide)
  have hshort : metricsPath.length ≤ 1024 := by decide
  have hplain : Plain metricsPath (some expected.toList) := ⟨hpath,fun t ht => by cases ht; exact hp⟩
  have htoken : ∀t∈some expected.toList,t.length ≤ 1024 := by
    intro t ht
    cases ht
    rw [expected.toList_length]
    decide
  have hread := request_short .Get hshort htoken
  have hreply := @served_reply s now .Get _ none _ expected ht hplain (fun h => by cases h) (Nat.zero_le _) hread
  have htarget : (requestOf .Get metricsPath 0 (some expected.toList)).target
      (requestBytes (verb .Get) metricsPath none (some expected.toList))=metricsPath := by
    have htake := request_target .Get metricsPath none (some expected.toList)
    have hall : metricsPath.take ((metricsPath.idxOf? questionMark).getD metricsPath.length)=metricsPath := by decide
    rw [hall,Option.getD_none,List.length_nil] at htake
    exact htake
  have hroute := @route_metrics (requestOf .Get metricsPath 0 (some expected.toList)) _ (s.count.ctx now) rfl htarget
  rw [readMetrics,hreply]
  simp only [Option.getD_none,List.length_nil,hroute,if_true,ne_eq,not_true_eq_false,if_false]
  exact parseMetrics_body _ hw

end Volume

/-- The two readings are the counters of the daemon. Whatever it hears between them, what it stores and what it has no room
for both come to the inserts, and what it has no room for to the store-full count as well: the client counts such an envelope
twice, and where all that it sent has come to the ledger, its check passes exactly when there was room for all. -/
theorem volume_accounted (S : Suite) (A : Transport.Aead) (keys : Keys) (secret : FixedBytes 32) (s s' : Controlled)
    (ys : List Tick) (now now' : UInt64) (ht : s.token=some (Token.hex secret)) (h : s.run S A keys ys=some s')
    (hw : Wide s now) (hw' : Wide s' now') :
    let base := snapshotOf (s.count.ctx now)
    let stop := snapshotOf (s'.count.ctx now')
    readMetrics (served s now) (some (Token.hex secret).toList)=.ok base ∧
      readMetrics (served s' now') (some (Token.hex secret).toList)=.ok stop ∧
      ∃stored refused,s'.endpoint.mem.envelopes.length=s.endpoint.mem.envelopes.length+stored ∧
        stop.inserts=base.inserts+(stored+refused) ∧ stop.storefull=base.storefull+refused ∧
        (∀sent,Accounts base stop sent ↔ stored+2*refused=sent) ∧
        (Accounts base stop (stored+refused) ↔ refused=0) := by
  intro base stop
  have ht' : s'.token=some (Token.hex secret) := (run_counts ys h).1.trans ht
  have hgrown := run_grown ((s.run_eq_partial ys).symm.trans h)
  obtain ⟨stored,hstored⟩ := Nat.exists_eq_add_of_le hgrown.stored.length_le
  obtain ⟨refused,hrefused⟩ := Nat.exists_eq_add_of_le hgrown.refused
  have hcounted := hgrown.counted
  have hinserts : stop.inserts=base.inserts+(stored+refused) := by
    change s'.endpoint.mem.insertsTotal=s.endpoint.mem.insertsTotal+(stored+refused)
    omega
  have hstorefull : stop.storefull=base.storefull+refused := hrefused
  have hsum : ∀sent,Accounts base stop sent ↔ stored+2*refused=sent := by
    intro sent
    rw [Accounts,hinserts,hstorefull]
    omega
  refine ⟨metrics_read ht (hex_printable secret) now hw,metrics_read ht' (hex_printable secret) now' hw',stored,refused,
    hstored,hinserts,hstorefull,hsum,?_⟩
  rw [hsum]
  omega

section Sample

/-- A suite whose hashes and signatures are the first bytes of what they are over. -/
def plainSuite : Suite :=
  { sampleSuite with toCrypto := ⟨fun bs => fixed 32 bs,fun key msg sig => sig==(fixed 64 (key++msg)).toList⟩ }

def plainSigner : Ca.Signer := ⟨fun seed => seed,fun seed msg => fixed 64 (seed.toList++msg)⟩

/-- The letters of a sender: utterances without a text. -/
def sampleNote (seq : UInt64) : Letter := ⟨fixed 32 [],seq,0,bodyUtterance,[]⟩

def sampleNotes : List Bytes := [sampleNote 1,sampleNote 2].map (Letter.wire plainSigner (fixed 32 [7]))

def plainBoot : Controlled := .boot plainSuite responderKeys sampleDispatch.resolver none ⟨[],none,[]⟩ (some sampleToken)

/-- The daemon with a bound session and room for one more envelope. -/
def nearlyFull : Controlled :=
  { plainBoot with endpoint := { plainBoot.endpoint with
      sessions := boundEndpoint.sessions
      hs := boundEndpoint.hs
      peerStatic := boundEndpoint.peerStatic
      mem :=
        { envelopes := (List.range (maxEnvelopes-1)).map (fun i => (Evidence.sampleCall 0xAA (UInt64.ofNat i)).entry)
          seqWindows := []
          insertsTotal := maxEnvelopes-1
          storefullTotal := 0 } } }

theorem nearlyFull_sound : nearlyFull.Sound plainSuite responderKeys := by
  have hboot : plainBoot.Sound plainSuite responderKeys := sound_boot _ _ _ _ _ _
  have hengaged : InStep (engagedEndpoint 0).tables := sample_inStep.commit _ _ _
  have hbound : InStep boundEndpoint.tables := by
    rw [boundEndpoint,setBound_tables _ _ _ (engaged_lookup 0)]
    exact hengaged.put (engaged_lookup 0) rfl rfl rfl rfl rfl
  have htables : nearlyFull.endpoint.tables=boundEndpoint.tables := by simp only [nearlyFull,Endpoint.tables]
  have hprocess : nearlyFull.process=plainBoot.process := by simp only [nearlyFull,Controlled.process]
  have hdaemon : nearlyFull.endpoint.daemon=plainBoot.endpoint.daemon := by simp only [nearlyFull]
  refine ⟨?_,?_,?_⟩
  · rw [htables]
    exact hbound
  · rw [hprocess]
    exact hboot.process
  · rw [hdaemon]
    exact hboot.pending

/-- Inputs alone move the endpoint alone. -/
theorem run_inputs {S : Suite} {A : Transport.Aead} {keys : Keys} (s : Controlled) (xs : List Input) :
    s.run S A keys (xs.map Tick.input)=
      (PartialRun.run (Endpoint.after S A keys) s.endpoint xs).map (fun e => { s with endpoint := e }) := by
  rw [s.run_eq_partial]
  induction xs generalizing s with
  | nil => rfl
  | cons x xs ih =>
    rw [List.map_cons,run_cons,run_cons,Controlled.step,Endpoint.after]
    cases s.endpoint.step S A keys x with
    | none => rfl
    | some r => exact ih { s with endpoint := r.1 }

/-- The two letters of a sender, one behind the other. -/
def heardNotes : Option Endpoint :=
  PartialRun.run (fun e (a : Nat × Outside) => e.handleEnvelope plainSuite a.2.io a.2.now ((sampleNotes[a.1]?).getD []))
    nearlyFull.endpoint [(0,sampleOutside 0),(1,sampleOutside 0)]

theorem heardNotes_counts : heardNotes.map (fun e => (e.mem.envelopes.length,e.mem.insertsTotal,e.mem.storefullTotal,
    decide (Wide { nearlyFull with endpoint := e } 0)))=some (maxEnvelopes,maxEnvelopes+1,1,true) := by decide +kernel

/-- The letters come in as packets of the bound session. -/
theorem notes_delivered : ∃wires e,sendAll chachaPoly boundSender sampleNotes=(.ok wires,sealing boundSender 2) ∧
    nearlyFull.run plainSuite chachaPoly responderKeys
      (wires.map (fun wire => .input (.datagram wire (sampleOutside 0))))=some { nearlyFull with endpoint := e } ∧
    heardNotes=some { e with sessions := nearlyFull.endpoint.sessions } := by
  have hbound : nearlyFull.endpoint.sessions.lookup 0=some boundSession := bound_lookup
  have hjoined : Joined chachaPoly nearlyFull.endpoint.sessions boundSender :=
    ⟨boundSession,[],hbound,rfl,rfl,.inl ⟨rfl,by simp⟩,by simp⟩
  have hfit : ∀pt∈sampleNotes,pt.length ≤ 4096 := List.all_iff_forall_prop.mp (by decide +kernel)
  have hroom : boundSender.send.counter.toNat+sampleNotes.length ≤ 2^48 := by decide +kernel
  obtain ⟨wires,hsent,hrun⟩ := ladder_delivers plainSuite chachaPoly chachaPoly_correct responderKeys nearlyFull.endpoint
    boundSender hjoined sampleNotes hfit hroom [(0,sampleOutside 0),(1,sampleOutside 0)] (by decide +kernel) (by simp)
  obtain ⟨wires',hsent',hlen,-⟩ := sendAll_ok chachaPoly_correct hfit hroom
  have hsame : wires'=wires := Except.ok.inj (congrArg Prod.fst (hsent'.symm.trans hsent))
  rw [hsame] at hlen
  obtain ⟨w,w',rfl⟩ := List.length_eq_two.mp hlen
  have hinputs : [w,w'].map (fun wire => Tick.input (.datagram wire (sampleOutside 0)))=
      [.datagram w (sampleOutside 0),.datagram w' (sampleOutside 0)].map Tick.input := rfl
  obtain ⟨s',hs',-⟩ := never_ends (fun s x (h : s.Sound plainSuite responderKeys) => h.step chachaPoly x) nearlyFull
    nearlyFull_sound ([w,w'].map (fun wire => Tick.input (.datagram wire (sampleOutside 0))))
  have hall := @run_inputs plainSuite chachaPoly responderKeys nearlyFull
    [.datagram w (sampleOutside 0),.datagram w' (sampleOutside 0)]
  rw [← hinputs,Controlled.run_eq_partial,hs'] at hall
  obtain ⟨e,he,heq⟩ := Option.map_eq_some_iff.mp hall.symm
  refine ⟨[w,w'],e,hsent,?_,?_⟩
  · rw [Controlled.run_eq_partial,hs',heq]
  · have hheard := hrun.symm
    have hpair : [(0,sampleOutside 0),(1,sampleOutside 0)].map
        (fun a : Nat × Outside => Input.datagram (([w,w'][a.1]?).getD []) a.2)=
          [.datagram w (sampleOutside 0),.datagram w' (sampleOutside 0)] := rfl
    rw [hpair,he] at hheard
    exact hheard

/-- Of two letters the first is stored and the second finds no room, and the client counts three. -/
theorem volume_accounted_sample : ∃wires s',
    sendAll chachaPoly boundSender sampleNotes=(.ok wires,sealing boundSender 2) ∧
      nearlyFull.run plainSuite chachaPoly responderKeys
        (wires.map (fun wire => .input (.datagram wire (sampleOutside 0))))=some s' ∧
      ∃base stop,readMetrics (served nearlyFull 0) (some sampleToken.toList)=.ok base ∧
        readMetrics (served s' 0) (some sampleToken.toList)=.ok stop ∧ stop.inserts=base.inserts+2 ∧
        stop.storefull=base.storefull+1 ∧ Accounts base stop 3 ∧ ¬Accounts base stop 2 := by
  obtain ⟨wires,e,hsent,hrun,hheard⟩ := notes_delivered
  have hcounts := heardNotes_counts
  rw [hheard] at hcounts
  obtain ⟨hlen,-,hfull,hwide⟩ : e.mem.envelopes.length=maxEnvelopes ∧ e.mem.insertsTotal=maxEnvelopes+1 ∧
      e.mem.storefullTotal=1 ∧
      decide (Wide { nearlyFull with endpoint := { e with sessions := nearlyFull.endpoint.sessions } } 0)=true := by
    simpa only [Option.map_some,Option.some.injEq,Prod.mk.injEq] using hcounts
  have hw : Wide nearlyFull 0 := by decide +kernel
  have hw' : Wide { nearlyFull with endpoint := e } 0 := of_decide_eq_true hwide
  obtain ⟨hbase,hstop,stored,refused,hstored,hinserts,hstorefull,hsum,-⟩ := volume_accounted plainSuite chachaPoly
    responderKeys (fixed 32 (List.replicate 32 0xab)) nearlyFull { nearlyFull with endpoint := e } _ 0 0 rfl hrun hw hw'
  have hstart : nearlyFull.endpoint.mem.envelopes.length=maxEnvelopes-1 := by
    simp [nearlyFull]
  have hcap : maxEnvelopes=4096 := rfl
  have hone : stored=1 := by
    rw [hlen,hstart] at hstored
    omega
  have hrefused : refused=1 := by
    change e.mem.storefullTotal=0+refused at hstorefull
    omega
  rw [hone,hrefused] at hinserts hsum
  rw [hrefused] at hstorefull
  refine ⟨wires,_,hsent,hrun,_,_,hbase,hstop,hinserts,hstorefull,(hsum 3).mpr rfl,?_⟩
  rw [hsum]
  decide

end Sample

end Bolina.Client
