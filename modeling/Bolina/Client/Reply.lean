import Bolina.Client.Http
import Bolina.Daemon.MetricsRun

namespace Bolina.Client

open Control Utf8 ListSearch Breaks

def newline : Char := Char.ofNat 0x0a
def carriageReturn : Char := Char.ofNat 0x0d

def trimEndMatches (c : Char) (s : List Char) : List Char := (s.reverse.dropWhile (fun x => x=c)).reverse

/-- The tag that waits for its number, and the events so far. -/
structure SseRead where
  tag : Option (List Char)
  events : List (List Char × Nat)

/-- A line of data takes the tag with it, whether it is a number or not. -/
def SseRead.line (r : SseRead) (line : List Char) : SseRead :=
  let line := trimEndMatches carriageReturn line
  match line.dropPrefix? "event: ".toList with
  | some t => { r with tag := some t }
  | none =>
    match line.dropPrefix? "data: ".toList with
    | none => r
    | some d =>
      match r.tag,parseUsize (trim d) with
      | some t,some seq => ⟨none,r.events++[(t,seq)]⟩
      | _,_ => { r with tag := none }

def parseSse (body : List Char) : List (List Char × Nat) := ((body.splitOn newline).foldl SseRead.line ⟨none,[]⟩).events

/-- The lines of a text: each ends in a line feed, with or without a carriage return. -/
def lines (s : List Char) : List (List Char) :=
  let parts := s.splitOn newline
  parts.dropLast.map (fun line => if line.getLast?=some carriageReturn then line.dropLast else line)++
    parts.getLast?.toList.filter (fun line => line≠[])

/-- The two sides of the last separator. -/
def rsplitOnce (sep : Char) (s : List Char) : Option (List Char × List Char) :=
  (s.reverse.idxOf? sep).map (fun i => ((s.reverse.drop (i+1)).reverse,(s.reverse.take i).reverse))

/-- The counters of the wire path. -/
structure MetricsSnapshot where
  admissions : Nat
  inserts : Nat
  storefull : Nat
  rejects : List (List Char × Nat)
  deriving DecidableEq

inductive MetricsError where
  | Http (e : HttpError)
  | Status (status : Nat)
  /-- Which of the three totals were there. -/
  | Missing (admissions inserts storefull : Bool)
  deriving DecidableEq

structure MetricsRead where
  m : MetricsSnapshot
  seenA : Bool
  seenI : Bool
  seenS : Bool
  deriving DecidableEq

def MetricsRead.value (r : MetricsRead) (name : List Char) (v : Nat) : MetricsRead :=
  if name="bolina_wire_admissions_total".toList then { r with m := { r.m with admissions := v },seenA := true }
  else if name="bolina_ledger_inserts_total".toList then { r with m := { r.m with inserts := v },seenI := true }
  else if name="bolina_ledger_storefull_total".toList then { r with m := { r.m with storefull := v },seenS := true }
  else
    match (name.dropPrefix? "bolina_wire_rejects_total\x7bclass=\"".toList).bind
        (fun s => s.dropSuffix? "\"\x7d".toList) with
    | some cls => { r with m := { r.m with rejects := r.m.rejects++[(cls,v)] } }
    | none => r

def MetricsRead.line (r : MetricsRead) (line : List Char) : MetricsRead :=
  match rsplitOnce ' ' line with
  | none => r
  | some (name,val) =>
    match parseUsize val with
    | none => r
    | some v => r.value name v

def parseMetrics (body : List Char) : Except MetricsError MetricsSnapshot :=
  let r := (lines body).foldl MetricsRead.line ⟨⟨0,0,0,[]⟩,false,false,false⟩
  if r.seenA=true ∧ r.seenI=true ∧ r.seenS=true then .ok r.m else .error (.Missing r.seenA r.seenI r.seenS)

def readMetrics (exchange : Bytes → Except HttpError Bytes) (token : Option Bytes) : Except MetricsError MetricsSnapshot :=
  match httpRequest exchange (verb .Get) metricsPath none token with
  | .error e => .error (.Http e)
  | .ok (status,body) => if status≠200 then .error (.Status status) else parseMetrics body

section Reply

variable {status : Nat}

theorem decode_cons {b : UInt8} (h : b < 0x80) (bs : Bytes) : decode (b::bs)=some (Char.ofNat b.toNat)::decode bs := by
  have hone : decodeOne b bs=(some (Char.ofNat b.toNat),1) := by rw [decodeOne,if_pos h]
  rw [decode,List.length_cons,decodeLoop,hone]
  rfl

/-- Bytes below 0x80 are their characters, whatever follows. -/
theorem lossy_append {bs : Bytes} (h : ∀b∈bs,b < 0x80) (rest : Bytes) :
    fromUtf8Lossy (bs++rest)=asciiText bs++fromUtf8Lossy rest := by
  induction bs with
  | nil => rfl
  | cons b bs ih =>
    obtain ⟨hb,hbs⟩ := List.forall_mem_cons.mp h
    have htail := ih hbs
    rw [fromUtf8Lossy] at htail ⊢
    rw [List.cons_append,decode_cons hb,List.map_cons,htail]
    rfl

theorem lossy_ascii {bs : Bytes} (h : ∀b∈bs,b < 0x80) : fromUtf8Lossy bs=asciiText bs := by
  have happend := lossy_append h []
  rw [List.append_nil] at happend
  rw [happend]
  exact List.append_nil _

def statusLine (status : Nat) : Bytes := ascii "HTTP/1.1 "++decimal status++[sp]++statusText status

def replyFields (length : Nat) : List Bytes := [ascii "Content-Length: "++decimal length,ascii "Connection: close"]

theorem response_eq (reply : HttpReply) : response reply=
    joined cr lf (statusLine reply.1) (replyFields reply.2.length)++(terminator++reply.2) := by
  have hlength : ascii "\r\nContent-Length: "=cr::lf::ascii "Content-Length: " := by decide
  have hclose : ascii "\r\nConnection: close\r\n\r\n"=cr::lf::(ascii "Connection: close"++terminator) := by decide
  rw [response,hlength,hclose]
  simp [statusLine,replyFields,joined]

theorem statusText_printable (status : Nat) : Printable (statusText status) := by
  rw [statusText]
  split_ifs <;> decide

theorem statusLine_printable (status : Nat) : Printable (statusLine status) := by
  have hversion : Printable (ascii "HTTP/1.1 ") := by decide
  have hspace : Printable [sp] := by decide
  intro b hb
  simp only [statusLine,List.mem_append] at hb
  rcases hb with ((hb | hb) | hb) | hb
  · exact hversion b hb
  · exact decimal_printable status b hb
  · exact hspace b hb
  · exact statusText_printable status b hb

theorem replyFields_printable (length : Nat) : ∀line∈replyFields length,line≠[] ∧ Printable line := by
  have hname : Printable (ascii "Content-Length: ") := by decide
  have hclose : ascii "Connection: close"≠[] ∧ Printable (ascii "Connection: close") := by decide
  intro line hline
  rcases List.mem_cons.mp hline with rfl | hline
  · refine ⟨List.append_ne_nil_of_left_ne_nil (by decide) _,?_⟩
    intro b hb
    cases List.mem_append.mp hb with
    | inl hb => exact hname b hb
    | inr hb => exact decimal_printable length b hb
  · rw [List.mem_singleton.mp hline]
    exact hclose

/-- Where a byte does not stand, its character does not either. -/
theorem asciiText_free {line : Bytes} (h : Printable line) {c : Char} (hc : c.toNat < 0x20) : c∉asciiText line := by
  intro hm
  obtain ⟨b,hb,rfl⟩ := List.mem_map.mp hm
  obtain ⟨hlow,hhigh⟩ := h b hb
  rw [ofNat_toNat b hhigh] at hc
  exact absurd hc (Nat.not_lt.mpr hlow)

theorem digit_space {c : Char} (h : c.isDigit=true) : isWhitespace c=false := by
  rw [Char.isDigit,Bool.and_eq_true,decide_eq_true_eq,decide_eq_true_eq] at h
  have hcode : 0x30 ≤ c.toNat ∧ c.toNat ≤ 0x39 := h
  rw [isWhitespace,decide_eq_false_iff_not]
  omega

/-- The second word of a reply is its status. -/
theorem status_word (status : Nat) (rest : List Char) :
    (splitWhitespace (asciiText (statusLine status)++rest))[1]?=some (Nat.toDigits 10 status) := by
  have hall : "HTTP/1.1".toList.all (fun c => !isWhitespace c)=true := by decide
  have hversion : ∀c∈"HTTP/1.1".toList,isWhitespace c=false := by
    intro c hc
    have hc := List.all_eq_true.mp hall c hc
    rwa [Bool.not_eq_true'] at hc
  have hdigits : ∀c∈Nat.toDigits 10 status,isWhitespace c=false := fun c hc => digit_space (decimal_digits status c hc)
  have htext : asciiText (statusLine status)++rest=
      "HTTP/1.1".toList++ ' '::(Nat.toDigits 10 status++ ' '::(asciiText (statusText status)++rest)) := by
    have hfront : asciiText (ascii "HTTP/1.1 ")="HTTP/1.1".toList++[' '] := by decide
    have hspace : asciiText [sp]=[' '] := by decide
    have hcut : asciiText (statusLine status)=asciiText (ascii "HTTP/1.1 ")++asciiText (decimal status)++asciiText [sp]++
        asciiText (statusText status) := by
      simp only [statusLine,asciiText,List.map_append]
    rw [hcut,hfront,hspace,decimal_text]
    simp
  rw [splitWhitespace,htext,List.splitOnP_append_cons_of_forall_mem hversion ' ' (by decide),
    List.splitOnP_append_cons_of_forall_mem hdigits ' ' (by decide),List.filter_cons_of_pos (by decide),
    List.filter_cons_of_pos (by simp)]
  rfl

/-- The client reads the status and the body of every reply. -/
theorem readReply_response (reply : HttpReply) (h : reply.1 < 2^16) :
    readReply (response reply)=.ok (reply.1,fromUtf8Lossy reply.2) := by
  have hhead : ∀b∈joined cr lf (statusLine reply.1) (replyFields reply.2.length)++terminator,b < 0x80 := by
    intro b hb
    rcases List.mem_append.mp hb with hb | hb
    · rcases mem_joined cr lf hb with rfl | rfl | hb | ⟨line,hline,hb⟩
      · decide
      · decide
      · exact (statusLine_printable reply.1 b hb).2
      · exact ((replyFields_printable reply.2.length line hline).2 b hb).2
    · have hall : ∀b∈terminator,b < 0x80 := List.all_iff_forall_prop.mp (by decide)
      exact hall b hb
  have htext : fromUtf8Lossy (response reply)=
      joined carriageReturn newline (asciiText (statusLine reply.1)) ((replyFields reply.2.length).map asciiText)++
        (terminatorText++fromUtf8Lossy reply.2) := by
    rw [response_eq,← List.append_assoc,lossy_append hhead,asciiText,List.map_append,map_joined,List.append_assoc]
    rfl
  have hend : findSub terminatorText (fromUtf8Lossy (response reply))=
      some (joined carriageReturn newline (asciiText (statusLine reply.1))
        ((replyFields reply.2.length).map asciiText)).length := by
    rw [htext]
    apply findSub_end (by decide)
    · exact asciiText_free (statusLine_printable reply.1) (by decide)
    · intro line hline
      obtain ⟨bs,hbs,rfl⟩ := List.mem_map.mp hline
      obtain ⟨hne,hprint⟩ := replyFields_printable reply.2.length bs hbs
      exact ⟨by simpa [asciiText] using hne,asciiText_free hprint (by decide)⟩
  have hword : (splitWhitespace (fromUtf8Lossy (response reply)))[1]?=some (Nat.toDigits 10 reply.1) := by
    rw [htext,joined,List.append_assoc]
    exact status_word reply.1 _
  rw [readReply]
  simp only [hword,hend,Option.bind_some,parseU16_decimal h,Option.map_some,Option.getD_some]
  have hfour : terminatorText.length=4 := by decide
  rw [htext,← hfour,← List.drop_drop,List.drop_left,List.drop_left]

end Reply

section Events

variable {n : Nat}

theorem trimEndMatches_free {c : Char} {s : List Char} (h : c∉s) : trimEndMatches c s=s := by
  have hback : s.reverse.dropWhile (fun x => x=c)=s.reverse := List.dropWhile_eq_self_iff.mpr (by
    intro hlen
    rw [decide_eq_true_eq]
    exact fun he => h (he ▸ List.mem_reverse.mp (List.getElem_mem hlen)))
  rw [trimEndMatches,hback,List.reverse_reverse]

theorem trim_free {s : List Char} (h : ∀c∈s,isWhitespace c=false) : trim s=s := by
  have hstart : ∀s : List Char,(∀c∈s,isWhitespace c=false) → trimStart s=s := by
    intro s h
    apply List.dropWhile_eq_self_iff.mpr
    intro hlen
    rw [h _ (List.getElem_mem hlen)]
    decide
  rw [trim,hstart s h,hstart s.reverse (fun c hc => h c (List.mem_reverse.mp hc)),List.reverse_reverse]

theorem digits_free {c : Char} (hc : c.isDigit=false) (n : Nat) : c∉Nat.toDigits 10 n :=
  fun hm => digit_ne (decimal_digits n c hm) hc rfl

theorem line_event (r : SseRead) (tag : EventTag) :
    r.line ("event: ".toList++asciiText tag.name)={ r with tag := some (asciiText tag.name) } := by
  have hfree : carriageReturn∉"event: ".toList++asciiText tag.name := by
    cases tag <;> decide
  rw [SseRead.line,trimEndMatches_free hfree,List.dropPrefix?_append_of_beq _ (beq_self_eq_true _)]

theorem line_data (t : List Char) (events : List (List Char × Nat)) (h : n < 2^64) :
    SseRead.line ⟨some t,events⟩ ("data: ".toList++Nat.toDigits 10 n)=⟨none,events++[(t,n)]⟩ := by
  have hfree : carriageReturn∉"data: ".toList++Nat.toDigits 10 n := by
    have hname : carriageReturn∉"data: ".toList := by decide
    rw [List.mem_append,not_or]
    exact ⟨hname,digits_free (by decide) n⟩
  have hother : ("data: ".toList++Nat.toDigits 10 n).dropPrefix? "event: ".toList=none := rfl
  rw [SseRead.line,trimEndMatches_free hfree,hother,List.dropPrefix?_append_of_beq _ (beq_self_eq_true _)]
  dsimp only
  rw [trim_free (fun c hc => digit_space (decimal_digits n c hc)),parseUsize_decimal h]

theorem line_empty (r : SseRead) : r.line []=r := rfl

/-- The lines of an event, behind each other. -/
theorem sseEvent_text (e : Nat × EventTag) (rest : List Char) : asciiText (sseEvent e)++rest=
    ("event: ".toList++asciiText e.2.name)++newline::(("data: ".toList++Nat.toDigits 10 e.1)++newline::([]++newline::rest)) := by
  have hevent : asciiText (ascii "event: ")="event: ".toList := by decide
  have hdata : asciiText (ascii "\ndata: ")=newline::"data: ".toList := by decide
  have hend : asciiText (ascii "\n\n")=[newline,newline] := by decide
  have hcut : asciiText (sseEvent e)=asciiText (ascii "event: ")++asciiText e.2.name++asciiText (ascii "\ndata: ")++
      asciiText (decimal e.1)++asciiText (ascii "\n\n") := by
    simp only [sseEvent,asciiText,List.map_append]
  rw [hcut,hevent,hdata,hend,decimal_text]
  simp

theorem fold_events (events : List (Nat × EventTag)) (read : List (List Char × Nat)) (h : ∀e∈events,e.1 < 2^64) :
    ((asciiText (events.flatMap sseEvent)).splitOn newline).foldl SseRead.line ⟨none,read⟩=
      ⟨none,read++events.map (fun e => (asciiText e.2.name,e.1))⟩ := by
  induction events generalizing read with
  | nil =>
    rw [List.map_nil,List.append_nil]
    rfl
  | cons e events ih =>
    obtain ⟨he,hrest⟩ := List.forall_mem_cons.mp h
    have hname : newline∉"event: ".toList++asciiText e.2.name := by
      cases e.2 <;> decide
    have hdata : newline∉"data: ".toList++Nat.toDigits 10 e.1 := by
      have hfront : newline∉"data: ".toList := by decide
      rw [List.mem_append,not_or]
      exact ⟨hfront,digits_free (by decide) e.1⟩
    have hnil : newline∉([] : List Char) := List.not_mem_nil
    have hcut : asciiText ((e::events).flatMap sseEvent)=asciiText (sseEvent e)++asciiText (events.flatMap sseEvent) := by
      rw [List.flatMap_cons,asciiText,List.map_append]
      rfl
    rw [hcut,sseEvent_text,List.splitOn_append_cons_self_of_not_mem hname,List.splitOn_append_cons_self_of_not_mem hdata,
      List.splitOn_append_cons_self_of_not_mem hnil,List.foldl_cons,List.foldl_cons,List.foldl_cons,line_event,
      line_data _ _ he,line_empty,ih _ hrest,List.map_cons,List.append_assoc]
    rfl

/-- The events are read back with their names and numbers. -/
theorem parseSse_events (events : List (Nat × EventTag)) (h : ∀e∈events,e.1 < 2^64) :
    parseSse (asciiText (events.flatMap sseEvent))=events.map (fun e => (asciiText e.2.name,e.1)) := by
  rw [parseSse,fold_events events [] h,List.nil_append]

theorem sse_ascii (events : List (Nat × EventTag)) : ∀b∈events.flatMap sseEvent,b < 0x80 := by
  have hevent : ∀b∈ascii "event: ",b < 0x80 := List.all_iff_forall_prop.mp (by decide)
  have hdata : ∀b∈ascii "\ndata: ",b < 0x80 := List.all_iff_forall_prop.mp (by decide)
  have hend : ∀b∈ascii "\n\n",b < 0x80 := List.all_iff_forall_prop.mp (by decide)
  have hname : ∀tag : EventTag,∀b∈tag.name,b < 0x80 := by
    intro tag
    have hall : tag.name.all (fun b => decide (b < 0x80))=true := by
      cases tag <;> decide
    exact List.all_iff_forall_prop.mp hall
  intro b hb
  obtain ⟨e,_,hb⟩ := List.mem_flatMap.mp hb
  simp only [sseEvent,List.mem_append] at hb
  rcases hb with (((hb | hb) | hb) | hb) | hb
  · exact hevent b hb
  · exact hname e.2 b hb
  · exact hdata b hb
  · exact (decimal_printable e.1 b hb).2
  · exact hend b hb

end Events

section Metrics

theorem rsplitOnce_last {sep : Char} {back : List Char} (front : List Char) (h : sep∉back) :
    rsplitOnce sep (front++sep::back)=some (front,back) := by
  have hrev : (front++sep::back).reverse=back.reverse++sep::front.reverse := by simp
  have hfirst : (back.reverse++sep::front.reverse).idxOf? sep=some back.reverse.length :=
    idxOf?_first back.reverse front.reverse sep (fun hm => h (List.mem_reverse.mp hm))
  rw [rsplitOnce,hrev,hfirst,Option.map_some,← List.drop_drop,List.drop_left,List.take_left,List.drop_succ_cons,
    List.drop_zero,List.reverse_reverse,List.reverse_reverse]

/-- The lines of a text are found again: none of them ends in a carriage return. -/
theorem lines_ended {rows : List (List Char)} (h : ∀row∈rows,newline∉row ∧ carriageReturn∉row) :
    lines (rows.flatMap (fun row => row++[newline]))=rows := by
  have hsplit : (rows.flatMap (fun row => row++[newline])).splitOn newline=rows++[[]] := by
    induction rows with
    | nil => rfl
    | cons row rows ih =>
      obtain ⟨hrow,hrows⟩ := List.forall_mem_cons.mp h
      rw [List.flatMap_cons,List.append_assoc,List.singleton_append,List.splitOn_append_cons_self_of_not_mem hrow.1,ih hrows]
      rfl
  rw [lines,hsplit,List.dropLast_concat,List.getLast?_concat]
  have hsame : rows.map (fun line => if line.getLast?=some carriageReturn then line.dropLast else line)=rows := by
    have hid : ∀row∈rows,(if row.getLast?=some carriageReturn then row.dropLast else row)=id row := by
      intro row hrow
      rw [if_neg]
      · rfl
      · exact fun hlast => (h row hrow).2 (List.mem_of_getLast? hlast)
    rw [List.map_congr_left hid,List.map_id]
  rw [hsame]
  simp

/-- A row of the text. -/
theorem line_row (r : MetricsRead) (name : List Char) {v : Nat} (h : v < 2^64) :
    r.line (name++ ' '::Nat.toDigits 10 v)=r.value name v := by
  rw [MetricsRead.line,rsplitOnce_last name (digits_free (by decide) v)]
  dsimp only
  rw [parseUsize_decimal h]

theorem value_reject (r : MetricsRead) (name : List Char) (v : Nat) :
    r.value ("bolina_wire_rejects_total\x7bclass=\"".toList++(name++"\"\x7d".toList)) v=
      { r with m := { r.m with rejects := r.m.rejects++[(name,v)] } } := by
  have hfirst : ∀total∈["bolina_wire_admissions_total".toList,"bolina_ledger_inserts_total".toList,
      "bolina_ledger_storefull_total".toList],
      "bolina_wire_rejects_total\x7bclass=\"".toList++(name++"\"\x7d".toList)≠total := by
    intro total htotal he
    have hpre : "bolina_wire_rejects_total\x7bclass=\"".toList <+: total := by
      rw [← he]
      exact List.prefix_append _ _
    have hno : ∀total∈["bolina_wire_admissions_total".toList,"bolina_ledger_inserts_total".toList,
        "bolina_ledger_storefull_total".toList],
        ¬"bolina_wire_rejects_total\x7bclass=\"".toList <+: total := by decide
    exact hno total htotal hpre
  have hsuffix : (name++"\"\x7d".toList).dropSuffix? "\"\x7d".toList=some name :=
    List.dropSuffix?_eq_some_iff.mpr ⟨_,rfl,beq_self_eq_true _⟩
  rw [MetricsRead.value,if_neg (hfirst _ (by simp)),if_neg (hfirst _ (by simp)),if_neg (hfirst _ (by simp)),
    List.dropPrefix?_append_of_beq _ (beq_self_eq_true _),Option.bind_some,hsuffix]

/-- The names of the text that the client has no use for. -/
theorem value_other (r : MetricsRead) (v : Nat) : ∀name∈["bolina_intents_admitted_total","bolina_ctl_requests_total",
    "bolina_ctl_auth_refused_total","bolina_ctl_timeouts_total","bolina_handshake_released_total",
    "bolina_handshake_slots_used"].map String.toList,r.value name v=r := by
  intro name hname
  have hno : ∀name∈["bolina_intents_admitted_total","bolina_ctl_requests_total","bolina_ctl_auth_refused_total",
      "bolina_ctl_timeouts_total","bolina_handshake_released_total","bolina_handshake_slots_used"].map String.toList,
      name≠"bolina_wire_admissions_total".toList ∧ name≠"bolina_ledger_inserts_total".toList ∧
        name≠"bolina_ledger_storefull_total".toList ∧
        name.dropPrefix? "bolina_wire_rejects_total\x7bclass=\"".toList=none := by decide
  obtain ⟨hadmissions,hinserts,hstorefull,hrejects⟩ := hno name hname
  rw [MetricsRead.value,if_neg hadmissions,if_neg hinserts,if_neg hstorefull,hrejects]
  rfl

/-- What the client keeps of the text. -/
def snapshotOf (ctx : RouteCtx) : MetricsSnapshot where
  admissions := ctx.wire.admissionsTotal
  inserts := ctx.ledgerInserts
  storefull := ctx.ledgerStorefull
  rejects := (rejectNames.map String.toList).zip ctx.wire.rejects.toList

theorem fold_rejects (names : List String) (vals : List Nat) (r : MetricsRead)
    (h : ∀name∈names,asciiText (ascii name)=name.toList) :
    ((names.map rejectLine).zip vals).foldl (fun r row => MetricsRead.value r (asciiText row.1) row.2) r=
      { r with m := { r.m with rejects := r.m.rejects++(names.map String.toList).zip vals } } := by
  induction names generalizing vals r with
  | nil => simp
  | cons name names ih =>
    obtain ⟨hname,hnames⟩ := List.forall_mem_cons.mp h
    cases vals with
    | nil => simp
    | cons v vals =>
      have hfront : asciiText rejectFront="bolina_wire_rejects_total\x7bclass=\"".toList := by decide
      have hback : asciiText rejectBack="\"\x7d".toList := by decide
      have hline : asciiText (rejectLine name)=
          "bolina_wire_rejects_total\x7bclass=\"".toList++(name.toList++"\"\x7d".toList) := by
        rw [rejectLine_eq,asciiText,List.map_append,List.map_append,← hname,← hfront,← hback]
        rfl
      rw [List.map_cons,List.zip_cons_cons,List.foldl_cons,hline,value_reject,ih _ _ hnames,List.map_cons,
        List.zip_cons_cons]
      simp

theorem rejectNames_text : ∀name∈rejectNames,asciiText (ascii name)=name.toList := by decide +kernel

/-- The three totals and the classes are read back as they stand. -/
theorem fold_rows (ctx : RouteCtx) :
    (metricRows ctx).foldl (fun r row => MetricsRead.value r (asciiText row.1) row.2) ⟨⟨0,0,0,[]⟩,false,false,false⟩=
      ⟨snapshotOf ctx,true,true,true⟩ := by
  have hadmissions : ∀r v,MetricsRead.value r (asciiText (ascii "bolina_wire_admissions_total")) v=
      { r with m := { r.m with admissions := v },seenA := true } := fun _ _ => rfl
  have hinserts : ∀r v,MetricsRead.value r (asciiText (ascii "bolina_ledger_inserts_total")) v=
      { r with m := { r.m with inserts := v },seenI := true } := fun _ _ => rfl
  have hstorefull : ∀r v,MetricsRead.value r (asciiText (ascii "bolina_ledger_storefull_total")) v=
      { r with m := { r.m with storefull := v },seenS := true } := fun _ _ => rfl
  have hother : ∀r v,∀name∈["bolina_intents_admitted_total","bolina_ctl_requests_total","bolina_ctl_auth_refused_total",
      "bolina_ctl_timeouts_total","bolina_handshake_released_total","bolina_handshake_slots_used"],
      MetricsRead.value r (asciiText (ascii name)) v=r := by
    intro r v name hname
    have htext : ∀name∈["bolina_intents_admitted_total","bolina_ctl_requests_total","bolina_ctl_auth_refused_total",
        "bolina_ctl_timeouts_total","bolina_handshake_released_total","bolina_handshake_slots_used"],
        asciiText (ascii name)=name.toList := by decide
    rw [htext name hname]
    exact value_other r v _ (List.mem_map_of_mem hname)
  rw [metricRows,List.foldl_append]
  simp only [List.foldl_cons,List.foldl_nil]
  rw [fold_rejects _ _ _ rejectNames_text,hother _ _ _ (by simp),hother _ _ _ (by simp),hstorefull,hinserts,hadmissions,
    hother _ _ _ (by simp),hother _ _ _ (by simp),hother _ _ _ (by simp),hother _ _ _ (by simp)]
  rfl

theorem metricNames_printable : ∀name∈metricNames,Printable name := by decide +kernel

theorem metricRows_printable (ctx : RouteCtx) : ∀row∈metricRows ctx,Printable row.1 := by
  intro row hrow
  apply metricNames_printable
  rw [← metricRows_names ctx]
  exact List.mem_map_of_mem hrow

/-- The counters are those of the daemon, where they have 64 bits. -/
theorem parseMetrics_body (ctx : RouteCtx) (h : ∀row∈metricRows ctx,row.2 < 2^64) :
    parseMetrics (fromUtf8Lossy (metricsBody ctx))=.ok (snapshotOf ctx) := by
  have hascii : ∀b∈metricsBody ctx,b < 0x80 := by
    intro b hb
    rw [metricsBody_render,LineText.renderTable,List.flatMap_map] at hb
    obtain ⟨row,hrow,hb⟩ := List.mem_flatMap.mp hb
    simp only [List.mem_append,List.mem_singleton] at hb
    rcases hb with ((hb | rfl) | hb) | rfl
    · exact (metricRows_printable ctx row hrow b hb).2
    · decide
    · exact (decimal_printable row.2 b hb).2
    · decide
  have htext : asciiText (metricsBody ctx)=
      ((metricRows ctx).map (fun row => asciiText row.1++ ' '::Nat.toDigits 10 row.2)).flatMap (fun row => row++[newline]) := by
    rw [metricsBody_render,LineText.renderTable,List.flatMap_map,List.flatMap_map,asciiText,List.map_flatMap]
    congr 1
    funext row
    have hsp : asciiText [sp]=[' '] := by decide
    have hlf : asciiText [lf]=[newline] := by decide
    have hcut : asciiText (row.1++[sp]++decimal row.2++[lf])=
        asciiText row.1++asciiText [sp]++asciiText (decimal row.2)++asciiText [lf] := by
      simp only [asciiText,List.map_append]
    change asciiText (row.1++[sp]++decimal row.2++[lf])=_
    rw [hcut,hsp,hlf,decimal_text]
    simp
  have hfree : ∀row∈(metricRows ctx).map (fun row => asciiText row.1++ ' '::Nat.toDigits 10 row.2),
      newline∉row ∧ carriageReturn∉row := by
    intro text htext
    obtain ⟨row,hrow,rfl⟩ := List.mem_map.mp htext
    have hname := metricRows_printable ctx row hrow
    have hboth : ∀c : Char,c.toNat < 0x20 → c.isDigit=false → c ≠ ' ' → c∉asciiText row.1++ ' '::Nat.toDigits 10 row.2 := by
      intro c hlow hdigit hspace
      rw [List.mem_append,List.mem_cons,not_or,not_or]
      exact ⟨asciiText_free hname hlow,hspace,digits_free hdigit row.2⟩
    exact ⟨hboth _ (by decide) (by decide) (by decide),hboth _ (by decide) (by decide) (by decide)⟩
  rw [parseMetrics,lossy_ascii hascii,htext,lines_ended hfree,List.foldl_map]
  have hrows : (metricRows ctx).foldl (fun r row => MetricsRead.line r (asciiText row.1++ ' '::Nat.toDigits 10 row.2))
      ⟨⟨0,0,0,[]⟩,false,false,false⟩=⟨snapshotOf ctx,true,true,true⟩ := by
    rw [← fold_rows ctx]
    exact List.foldl_ext _ _ _ (fun r row hrow => line_row r (asciiText row.1) (h row hrow))
  rw [hrows]
  rfl

end Metrics

end Bolina.Client
