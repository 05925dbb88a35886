import Bolina.Control.AuthGate
import Bolina.Control.Fragments
import Bolina.Control.LengthReaders
import Bolina.Control.MetricsText
import Bolina.Framework.Breaks
import Mathlib.Data.Bool.AllAny

namespace Bolina.Client

open Control Utf8 ListSearch Breaks

inductive HttpError where
  | Connect
  | Timeout
  | Write
  | Read
  /-- No status in a response of so many bytes. -/
  | NoStatusLine (length : Nat)
  deriving DecidableEq,Repr

/-- The bytes of a request. -/
def requestBytes (method path : Bytes) (body tokenHex : Option Bytes) : Bytes :=
  let bodyBytes := body.getD []
  let auth := (tokenHex.map (fun t => ascii "Authorization: Bearer "++t++ascii "\r\n")).getD []
  method++ascii " "++path++ascii " HTTP/1.1\r\nHost: harness\r\nContent-Type: application/json\r\n"++auth++
    ascii "Content-Length: "++decimal bodyBytes.length++ascii "\r\nConnection: close\r\n\r\n"++bodyBytes

/-- The words of a text. -/
def splitWhitespace (s : List Char) : List (List Char) := (s.splitOnP isWhitespace).filter (fun word => word≠[])

def parseU16 (s : List Char) : Option Nat := (parseDigits ((stripPrefix '+' s).getD s)).filter (fun n => n < 2^16)

def terminatorText : List Char := "\r\n\r\n".toList

/-- The second word is the status; the body begins behind the first empty line. -/
def readReply (resp : Bytes) : Except HttpError (Nat × List Char) :=
  let text := fromUtf8Lossy resp
  match ((splitWhitespace text)[1]?).bind parseU16 with
  | none => .error (.NoStatusLine (utf8 text).length)
  | some status =>
    let bodyStart := ((findSub terminatorText text).map (fun i => i+4)).getD text.length
    .ok (status,text.drop bodyStart)

/-- One request over one connection; `exchange` is what comes of writing it. -/
def httpRequest (exchange : Bytes → Except HttpError Bytes) (method path : Bytes) (body tokenHex : Option Bytes) :
    Except HttpError (Nat × List Char) :=
  match exchange (requestBytes method path body tokenHex) with
  | .error e => .error e
  | .ok resp => readReply resp

section Numbers

theorem digitValue_digit {c : Char} (h : c.isDigit=true) : digitValue c=some (c.toNat-0x30) := by
  rw [Char.isDigit,Bool.and_eq_true,decide_eq_true_eq,decide_eq_true_eq] at h
  have hcode : 0x30 ≤ c.toNat ∧ c.toNat ≤ 0x39 := h
  rw [digitValue,if_pos hcode]

theorem foldl_digits (s : List Char) (n : Nat) (h : ∀c∈s,c.isDigit=true) :
    s.foldl (fun n c => n.bind (fun n => (digitValue c).map (fun d => 10*n+d))) (some n)=
      some (Nat.ofDigitChars 10 s n) := by
  induction s generalizing n with
  | nil => rfl
  | cons c s ih =>
    obtain ⟨hc,hs⟩ := List.forall_mem_cons.mp h
    rw [List.foldl_cons,Option.bind_some,digitValue_digit hc,Option.map_some,ih _ hs,Nat.ofDigitChars_cons]
    rfl

theorem parseDigits_decimal (n : Nat) : parseDigits (Nat.toDigits 10 n)=some n := by
  rw [parseDigits,if_neg Nat.toDigits_ne_nil,foldl_digits _ 0 (decimal_digits n)]
  simp

theorem digit_ne {c x : Char} (h : c.isDigit=true) (hx : x.isDigit=false) : c≠x := by
  intro he
  rw [he,hx] at h
  cases h

/-- A number does not start with a sign. -/
theorem strip_decimal (n : Nat) : (stripPrefix '+' (Nat.toDigits 10 n)).getD (Nat.toDigits 10 n)=Nat.toDigits 10 n := by
  cases hd : Nat.toDigits 10 n with
  | nil => rfl
  | cons c s =>
    have hc : c.isDigit=true := decimal_digits n c (by rw [hd]; exact List.mem_cons_self)
    rw [stripPrefix,if_neg (digit_ne hc (by decide)),Option.getD_none]

theorem parseU16_decimal {n : Nat} (h : n < 2^16) : parseU16 (Nat.toDigits 10 n)=some n := by
  rw [parseU16,strip_decimal,parseDigits_decimal]
  simpa using h

theorem parseUsize_decimal {n : Nat} (h : n < 2^64) : parseUsize (Nat.toDigits 10 n)=some n := by
  rw [parseUsize,strip_decimal,parseDigits_decimal]
  simpa using h

theorem decimal_text (n : Nat) : asciiText (decimal n)=Nat.toDigits 10 n := decimal_chars n

theorem decimal_isDigit (n : Nat) : ∀b∈decimal n,isDigitByte b=true := by
  intro b hb
  obtain ⟨c,hc,rfl⟩ := List.mem_map.mp hb
  have hd := decimal_digits n c hc
  obtain ⟨hbyte,_⟩ := digit_byte hd
  rw [isDigitByte_iff,hbyte]
  rw [Char.isDigit,Bool.and_eq_true,decide_eq_true_eq,decide_eq_true_eq] at hd
  exact hd

/-- A number behind one blank. -/
theorem textNumber_decimal {n : Nat} (h : n < 2^64) : textNumber (sp::decimal n)=some n := by
  have hplain : ∀b∈sp::decimal n,isPlain b=true := by
    intro b hb
    cases List.mem_cons.mp hb with
    | inl he =>
      rw [he]
      decide
    | inr hd => rw [isPlain,decimal_isDigit n b hd,Bool.or_true]
  have hows : ∀b∈decimal n,isOws b=false := by
    intro b hb
    have hd := (isDigitByte_iff b).mp (decimal_isDigit n b hb)
    rw [Bool.eq_false_iff,ne_eq,isOws_iff]
    omega
  have htrim : trimOws (sp::decimal n)=decimal n := by
    rw [trimOws,List.dropWhile_cons_of_pos (by decide)]
    have hfront : (decimal n).dropWhile isOws=decimal n := List.dropWhile_eq_self_iff.mpr (by
      intro hlen
      rw [hows _ (List.getElem_mem _)]
      decide)
    have hback : (decimal n).reverse.dropWhile isOws=(decimal n).reverse := List.dropWhile_eq_self_iff.mpr (by
      intro hlen
      rw [hows _ (List.mem_reverse.mp (List.getElem_mem _))]
      decide)
    rw [hfront,hback,List.reverse_reverse]
  rw [textNumber,fromUtf8_ascii _ (fun b hb => isPlain_lt (hplain b hb)),Option.bind_some]
  have htext := trim_plain hplain
  rw [asciiText,htrim] at htext
  rw [htext,decimal_text,parseUsize_decimal h]

end Numbers

section Request

variable {m : Control.Method} {name path line : Bytes} {body token : Option Bytes} {n : Nat}

def verb : Control.Method → Bytes
  | .Get => ascii "GET"
  | .Post => ascii "POST"

def requestLine (method path : Bytes) : Bytes := method++sp::(path++sp::http11)

def authField (tokenHex : Bytes) : Bytes := ascii "Authorization: Bearer "++tokenHex

def lengthField (n : Nat) : Bytes := lengthName++colonByte::sp::decimal n

/-- The fields of a request with a body of this length. -/
def requestFields (n : Nat) (tokenHex : Option Bytes) : List Bytes :=
  ascii "Host: harness"::ascii "Content-Type: application/json"::
    ((tokenHex.map authField).toList++[lengthField n,ascii "Connection: close"])

/-- The head of a request. -/
def requestHead (method path : Bytes) (n : Nat) (tokenHex : Option Bytes) : Bytes :=
  joined cr lf (requestLine method path) (requestFields n tokenHex)

theorem requestBytes_eq (method path : Bytes) (body token : Option Bytes) : requestBytes method path body token=
    requestHead method path (body.getD []).length token++(terminator++body.getD []) := by
  have hfront : ascii " HTTP/1.1\r\nHost: harness\r\nContent-Type: application/json\r\n"=
      sp::(http11++cr::lf::(ascii "Host: harness"++cr::lf::(ascii "Content-Type: application/json"++[cr,lf]))) := by
    decide +kernel
  have hlength : ascii "Content-Length: "=lengthName++[colonByte,sp] := by decide +kernel
  have hclose : ascii "\r\nConnection: close\r\n\r\n"=cr::lf::(ascii "Connection: close"++terminator) := by
    decide +kernel
  have hbreak : ascii "\r\n"=[cr,lf] := by decide
  have hspace : ascii " "=[sp] := by decide
  cases token <;>
    simp [requestBytes,requestHead,requestFields,requestLine,lengthField,authField,joined,hfront,hlength,hclose,hbreak,
      hspace]

/-- The texts that the harness sends: a path of visible characters and a token of printable ones. -/
structure Plain (path : Bytes) (token : Option Bytes) : Prop where
  path : ∀b∈path,0x21 ≤ b ∧ b < 0x80
  token : ∀t∈token,∀b∈t,0x20 ≤ b ∧ b < 0x80

theorem Plain.visible (h : Plain path token) : ∀b∈path,¬b < 0x21 := fun b hb => UInt8.not_lt.mpr (h.path b hb).1

/-- Every byte of a line. -/
def Printable (line : Bytes) : Prop := ∀b∈line,0x20 ≤ b ∧ b < 0x80

instance (line : Bytes) : Decidable (Printable line) :=
  decidable_of_iff (line.all (fun b => decide (0x20 ≤ b ∧ b < 0x80))=true) List.all_iff_forall_prop

theorem Printable.breaks (h : Printable line) : cr∉line ∧ lf∉line :=
  ⟨fun hm => absurd (h cr hm).1 (by decide),fun hm => absurd (h lf hm).1 (by decide)⟩

theorem decimal_printable (n : Nat) : Printable (decimal n) := by
  intro b hb
  have hd := (isDigitByte_iff b).mp (decimal_isDigit n b hb)
  rw [UInt8.le_iff_toNat_le,UInt8.lt_iff_toNat_lt]
  have hlow : (0x20 : UInt8).toNat=0x20 := rfl
  have hhigh : (0x80 : UInt8).toNat=0x80 := rfl
  omega

theorem requestLine_printable (hp : Plain path token) (m : Control.Method) : Printable (requestLine (verb m) path) := by
  have hverb : Printable (verb m) := by
    cases m <;> decide
  have hversion : Printable http11 := by decide
  have hsp : (0x20 : UInt8) ≤ sp ∧ sp < 0x80 := by decide
  have hlow : (0x20 : UInt8) ≤ 0x21 := by decide
  intro b hb
  simp only [requestLine,List.mem_append,List.mem_cons] at hb
  rcases hb with hb | rfl | hb | rfl | hb
  · exact hverb b hb
  · exact hsp
  · exact ⟨UInt8.le_trans hlow (hp.path b hb).1,(hp.path b hb).2⟩
  · exact hsp
  · exact hversion b hb

theorem requestFields_printable (hp : Plain path token) (n : Nat) :
    ∀line∈requestFields n token,line≠[] ∧ Printable line := by
  have hhost : ascii "Host: harness"≠[] ∧ Printable (ascii "Host: harness") := by decide
  have htype : ascii "Content-Type: application/json"≠[] ∧ Printable (ascii "Content-Type: application/json") := by decide
  have hclose : ascii "Connection: close"≠[] ∧ Printable (ascii "Connection: close") := by decide
  have hscheme : Printable (ascii "Authorization: Bearer ") := by decide
  have hname : Printable (lengthName++[colonByte,sp]) := by decide
  have hlength : lengthField n≠[] ∧ Printable (lengthField n) := by
    have hcut : lengthField n=(lengthName++[colonByte,sp])++decimal n := by simp [lengthField]
    rw [hcut]
    refine ⟨by simp,?_⟩
    intro b hb
    cases List.mem_append.mp hb with
    | inl hb => exact hname b hb
    | inr hb => exact decimal_printable n b hb
  intro line hline
  simp only [requestFields,List.mem_cons,List.mem_append,Option.mem_toList,Option.map_eq_some_iff,List.not_mem_nil,or_false] at hline
  rcases hline with rfl | rfl | ⟨t,ht,rfl⟩ | rfl | rfl
  · exact hhost
  · exact htype
  · refine ⟨List.append_ne_nil_of_left_ne_nil (by decide) t,?_⟩
    intro b hb
    cases List.mem_append.mp hb with
    | inl hb => exact hscheme b hb
    | inr hb => exact hp.token t ht b hb
  · exact hlength
  · exact hclose

/-- Lines without a carriage return are found again. -/
theorem splitCrlf_joined {first : Bytes} {more : List Bytes} (hfirst : cr∉first) (hmore : ∀line∈more,cr∉line) :
    splitCrlf (joined cr lf first more)=first::more := by
  induction more generalizing first with
  | nil =>
    have hnone : findSub crlf first=none := findSub_absent cr hfirst
    rw [joined_nil,splitCrlf_first,hnone]
  | cons line more ih =>
    obtain ⟨hline,hmore⟩ := List.forall_mem_cons.mp hmore
    have hend : findSub crlf (first++cr::lf::joined cr lf line more)=some first.length :=
      findSub_first first _ cr hfirst
    rw [joined_cons,splitCrlf_first,hend]
    dsimp only
    rw [List.take_left,← List.drop_drop,List.drop_left]
    exact congrArg (List.cons first) (ih hline hmore)

theorem parseLine_request (hm : methodOf name=some m) (hname : sp∉name) (hpath : ∀b∈path,¬b < 0x21) :
    parseLine (requestLine name path)=.ok ⟨m,name.length+1,path⟩ := by
  have hsp : sp∉path := fun hmem => hpath sp hmem (by decide)
  have hver : http11.count sp=0 := by decide
  have hsp1 : (requestLine name path).idxOf? sp=some name.length := idxOf?_first name _ sp hname
  have hcount : (requestLine name path).count sp=2 := by
    rw [requestLine,List.count_append,List.count_cons_self,List.count_append,List.count_cons_self,
      List.count_eq_zero.mpr hname,List.count_eq_zero.mpr hsp,hver]
  have hrest : (requestLine name path).drop (name.length+1)=path++sp::http11 := by
    rw [requestLine,← List.drop_drop,List.drop_left]
    rfl
  have hsp2 : (path++sp::http11).idxOf? sp=some path.length := idxOf?_first path http11 sp hsp
  have hback : (path++sp::http11).drop (path.length+1)=http11 := by
    rw [← List.drop_drop,List.drop_left]
    rfl
  have hvisible : path.any (fun b => b < 0x21)=false := by
    rw [List.any_eq_false]
    intro b hb
    simpa using hpath b hb
  have htake : (requestLine name path).take name.length=name := List.take_left
  rw [parseLine,hsp1]
  simp only [hcount,hrest,hsp2,hback,List.take_left,htake,hm,hvisible,ne_eq,not_true_eq_false,if_false,Bool.false_eq_true]

theorem parseField_length (h : n < 2^64) : parseField (lengthField n)=.ok (some n) := by
  have hhead : (lengthField n).head?=some 0x43 := rfl
  have hcolon : (lengthField n).idxOf? colonByte=some 14 := idxOf?_first lengthName _ colonByte (by decide)
  have hback : (lengthField n)[14-1]?=some 0x68 := rfl
  have hname : (lengthField n).take 14=ascii "Content-Length" := rfl
  have hvalue : (lengthField n).drop (14+1)=sp::decimal n := rfl
  have hnumber := textNumber_decimal h
  rw [textNumber] at hnumber
  rw [parseField,hhead,if_neg (by decide),hcolon]
  dsimp only
  rw [hback,if_neg (by decide),hname,if_pos rfl,hvalue,hnumber]

theorem parseField_auth (t : Bytes) : parseField (authField t)=.ok none := by
  have hhead : (authField t).head?=some 0x41 := rfl
  have hcut : authField t=ascii "Authorization"++colonByte::(ascii " Bearer "++t) := rfl
  have hcolon : (authField t).idxOf? colonByte=some 13 := by
    rw [hcut]
    exact idxOf?_first (ascii "Authorization") _ colonByte (by decide)
  have hback : (authField t)[13-1]?=some 0x6e := rfl
  have hname : (authField t).take 13=ascii "Authorization" := rfl
  rw [parseField,hhead,if_neg (by decide),hcolon]
  dsimp only
  rw [hback,if_neg (by decide),hname,if_neg (by decide),if_neg (by decide)]

/-- The one length that is declared is that of the body. -/
theorem parseFields_request (h : n < 2^64) (token : Option Bytes) : parseFields (requestFields n token) none=.ok (some n) := by
  have hhost : parseField (ascii "Host: harness")=.ok none := by decide
  have htype : parseField (ascii "Content-Type: application/json")=.ok none := by decide
  have hclose : parseField (ascii "Connection: close")=.ok none := by decide
  have hlength := parseField_length h
  have hlast : parseFields [lengthField n,ascii "Connection: close"] none=.ok (some n) := by
    rw [parseFields,if_neg (by simp [lengthField]),hlength]
    dsimp only
    rw [parseFields,if_neg (by decide),hclose]
    rfl
  rw [requestFields,parseFields,if_neg (by decide),hhost]
  dsimp only
  rw [parseFields,if_neg (by decide),htype]
  dsimp only
  cases token with
  | none => exact hlast
  | some t =>
    have hauth : authField t≠[] := List.append_ne_nil_of_left_ne_nil (by decide) t
    rw [Option.map_some,Option.toList_some,List.singleton_append,parseFields,if_neg hauth,parseField_auth]
    exact hlast

/-- The request as the parser sees it. -/
def requestOf (m : Control.Method) (path : Bytes) (n : Nat) (token : Option Bytes) : Control.Request where
  method := m
  targetStart := (verb m).length+1
  targetEnd := (verb m).length+1+(path.idxOf? questionMark).getD path.length
  queryStart := (path.idxOf? questionMark).map (fun q => (verb m).length+1+q+1)
  contentLength := n
  bodyStart := (requestHead (verb m) path n token).length+4

theorem methodOf_verb (m : Control.Method) : methodOf (verb m)=some m := by
  cases m <;> decide

theorem verb_plain (m : Control.Method) : sp∉verb m := by
  cases m <;> decide

theorem request_end (hp : Plain path token) (m : Control.Method) (n : Nat) (rest : Bytes) :
    findSub terminator (requestHead (verb m) path n token++(terminator++rest))=
      some (requestHead (verb m) path n token).length :=
  findSub_end (by decide) (requestLine_printable hp m).breaks.1
    (fun line hl => ⟨(requestFields_printable hp n line hl).1,(requestFields_printable hp n line hl).2.breaks.1⟩) rest

theorem requestHead_cons (m : Control.Method) (path : Bytes) (n : Nat) (token : Option Bytes) :
    ∃line more,requestFields n token=line::more ∧
      requestHead (verb m) path n token=requestLine (verb m) path++cr::lf::joined cr lf line more :=
  ⟨_,_,rfl,joined_cons cr lf⟩

/-- The daemon accepts what the client sends, and takes it for what it is. -/
theorem request_parses (hp : Plain path token) (hpost : m=.Post → body.getD []≠[])
    (hcap : (body.getD []).length ≤ bodyCap) : parse (requestBytes (verb m) path body token)=
      .ok (requestOf m path (body.getD []).length token) := by
  have hcaps : bodyCap < 2^64 := by decide
  have hline := (requestLine_printable hp m).breaks.1
  obtain ⟨line,more,hfields,hhead⟩ := requestHead_cons m path (body.getD []).length token
  have hend : lineEnd (requestHead (verb m) path (body.getD []).length token)=(requestLine (verb m) path).length := by
    have hfirst : findSub crlf (requestHead (verb m) path (body.getD []).length token)=
        some (requestLine (verb m) path).length := by
      rw [hhead]
      exact findSub_first (requestLine (verb m) path) _ cr hline
    rw [lineEnd,hfirst,Option.getD_some]
  have hfirst : (requestHead (verb m) path (body.getD []).length token).take (requestLine (verb m) path).length=
      requestLine (verb m) path := by
    rw [hhead,List.take_left]
  have hrest : splitCrlf ((requestHead (verb m) path (body.getD []).length token).drop
      ((requestLine (verb m) path).length+2))=requestFields (body.getD []).length token := by
    have hbreaks : ∀l∈line::more,cr∉l := by
      intro l hl
      rw [← hfields] at hl
      exact (requestFields_printable hp _ l hl).2.breaks.1
    obtain ⟨hl,hm⟩ := List.forall_mem_cons.mp hbreaks
    rw [hhead,← List.drop_drop,List.drop_left,hfields]
    exact splitCrlf_joined hl hm
  have hempty : ¬(m=.Post ∧ (body.getD []).length=0) := fun h => hpost h.1 (List.length_eq_zero_iff.mp h.2)
  rw [requestBytes_eq,parse,request_end hp]
  simp only [List.take_left,hend,hfirst,hrest,parseLine_request (methodOf_verb m) (verb_plain m) hp.visible,
    parseFields_request (Nat.lt_of_le_of_lt hcap hcaps),Option.getD_some,if_neg hempty,if_neg (Nat.not_lt.mpr hcap)]
  rfl

theorem request_length (m : Control.Method) (path : Bytes) (body token : Option Bytes) :
    (requestBytes (verb m) path body token).length=
      (requestOf m path (body.getD []).length token).bodyStart+(requestOf m path (body.getD []).length token).contentLength := by
  have hterm : terminator.length=4 := by decide
  rw [requestBytes_eq,List.length_append,List.length_append,hterm,← Nat.add_assoc]
  rfl

theorem request_body (m : Control.Method) (path : Bytes) (body token : Option Bytes) :
    (requestOf m path (body.getD []).length token).body (requestBytes (verb m) path body token)=body.getD [] := by
  have hterm : terminator.length=4 := by decide
  have hstart : (requestOf m path (body.getD []).length token).bodyStart=
      (requestHead (verb m) path (body.getD []).length token).length+terminator.length := by
    rw [hterm]
    rfl
  rw [Request.body,hstart,requestBytes_eq,← List.drop_drop,List.drop_left,List.drop_left]
  exact List.take_length

theorem request_target (m : Control.Method) (path : Bytes) (body token : Option Bytes) :
    (requestOf m path (body.getD []).length token).target (requestBytes (verb m) path body token)=
      path.take ((path.idxOf? questionMark).getD path.length) := by
  obtain ⟨_,_,_,hhead⟩ := requestHead_cons m path (body.getD []).length token
  have hlen : (path.idxOf? questionMark).getD path.length ≤ path.length := by
    cases hq : path.idxOf? questionMark with
    | none => exact Nat.le_refl _
    | some q => exact Nat.le_of_lt (List.idxOf?_eq_some_iff.mp hq).1
  have hwidth : (requestOf m path (body.getD []).length token).targetEnd-
      (requestOf m path (body.getD []).length token).targetStart=(path.idxOf? questionMark).getD path.length :=
    Nat.add_sub_cancel_left _ _
  have hstart : (requestOf m path (body.getD []).length token).targetStart=(verb m).length+1 := rfl
  rw [Request.target,hwidth,hstart,requestBytes_eq,hhead,requestLine,List.append_assoc,List.append_assoc,
    ← List.drop_drop,List.drop_left,List.cons_append,List.drop_succ_cons,List.drop_zero,List.append_assoc,
    List.take_append_of_le_length hlen]

theorem request_head (hp : Plain path token) (m : Control.Method) (body : Option Bytes) :
    headOf (requestBytes (verb m) path body token)=requestHead (verb m) path (body.getD []).length token := by
  rw [requestBytes_eq,headOf_eq (request_end hp m _ _),List.take_left]

/-- Two spaces are all that the first line has, and the needle has both. -/
theorem requestLine_bearer (hpath : ∀b∈path,¬b < 0x21) (m : Control.Method) :
    findSub bearerNeedle ((requestLine (verb m) path).map asciiLower)=none := by
  have hlower : ∀b : UInt8,asciiLower b=sp ↔ b=sp := by
    intro b
    have hall : ∀n : Fin 256,asciiLower (UInt8.ofNat n)=sp ↔ UInt8.ofNat n=sp := by decide +kernel
    have hb := hall ⟨b.toNat,b.toNat_lt⟩
    rwa [UInt8.ofNat_toNat] at hb
  have hspace : ∀text : Bytes,sp∈text.map asciiLower ↔ sp∈text := by
    intro text
    simp [List.mem_map,hlower]
  have hpath : sp∉path.map asciiLower := by
    rw [hspace]
    exact fun hm => hpath sp hm (by decide)
  have hname : sp∉(verb m).map asciiLower := by
    rw [hspace]
    exact verb_plain m
  have hline : (requestLine (verb m) path).map asciiLower=
      (verb m).map asciiLower++sp::(path.map asciiLower++sp::ascii "http/1.1") := by
    rw [requestLine,List.map_append,List.map_cons,List.map_append,List.map_cons]
    rfl
  have hneedle : bearerNeedle=ascii "authorization:"++sp::(ascii "bearer"++[sp]) := by decide
  have hcount : ((requestLine (verb m) path).map asciiLower).count sp=2 := by
    have hver : (ascii "http/1.1").count sp=0 := by decide
    rw [hline,List.count_append,List.count_cons_self,List.count_append,List.count_cons_self,List.count_eq_zero.mpr hname,
      List.count_eq_zero.mpr hpath,hver]
  rw [findSub_eq_none]
  intro i hi
  obtain ⟨rest,hrest⟩ := hi
  have hcut := List.take_append_drop i ((requestLine (verb m) path).map asciiLower)
  rw [← hrest] at hcut
  have hfront : sp∉((requestLine (verb m) path).map asciiLower).take i++ascii "authorization:" := by
    have hsum := congrArg (List.count sp) hcut
    have hneed : bearerNeedle.count sp=2 := by decide
    rw [hcount,List.count_append,List.count_append,hneed] at hsum
    have hzero : (((requestLine (verb m) path).map asciiLower).take i).count sp=0 := by omega
    have hword : sp∉ascii "authorization:" := by decide
    rw [List.mem_append,not_or]
    exact ⟨List.count_eq_zero.mp hzero,hword⟩
  -- what is in front of the first space is the method, and it is too short
  have hfirst := idxOf?_first (((requestLine (verb m) path).map asciiLower).take i++ascii "authorization:")
    (ascii "bearer"++[sp]++rest) sp hfront
  have hmethod := idxOf?_first ((verb m).map asciiLower) (path.map asciiLower++sp::ascii "http/1.1") sp hname
  have hsame : (((requestLine (verb m) path).map asciiLower).take i++ascii "authorization:")++
      sp::(ascii "bearer"++[sp]++rest)=(requestLine (verb m) path).map asciiLower := by
    refine Eq.trans ?_ hcut
    rw [hneedle]
    simp only [List.append_assoc,List.cons_append]
  rw [hsame,hline,hmethod,Option.some.injEq,List.length_append] at hfirst
  have hshort : ((verb m).map asciiLower).length ≤ 4 := by
    cases m <;> decide
  have hlong : (ascii "authorization:").length=14 := by decide
  omega

theorem lengthField_bearer (n : Nat) : findSub bearerNeedle ((lengthField n).map asciiLower)=none := by
  have hdigit : ∀b : UInt8,isDigitByte b=true → asciiLower b≠0x61 := by
    intro b
    have hall : ∀n : Fin 256,isDigitByte (UInt8.ofNat n)=true → asciiLower (UInt8.ofNat n)≠0x61 := by decide +kernel
    have hb := hall ⟨b.toNat,b.toNat_lt⟩
    rwa [UInt8.ofNat_toNat] at hb
  have hname : (0x61 : UInt8)∉(lengthName++[colonByte,sp]).map asciiLower := by decide
  have hcut : lengthField n=(lengthName++[colonByte,sp])++decimal n := by simp [lengthField]
  have hneedle : bearerNeedle=0x61::ascii "uthorization: bearer " := by decide
  rw [hneedle]
  apply findSub_absent
  rw [hcut,List.map_append,List.mem_append,not_or]
  refine ⟨hname,?_⟩
  intro hm
  obtain ⟨b,hb,he⟩ := List.mem_map.mp hm
  exact hdigit b (decimal_isDigit n b hb) he

/-- The daemon reads the token that was sent and no other. -/
theorem request_bearer (hp : Plain path token) (m : Control.Method) (body : Option Bytes) (expected : FixedBytes 64) :
    bearerOk (requestBytes (verb m) path body token) expected=true ↔ token=some expected.toList := by
  have hcr : cr∉bearerNeedle := by decide
  have hlf : lf∉bearerNeedle := by decide
  have hne : bearerNeedle≠[] := by decide
  have hlow : asciiLower cr=cr ∧ asciiLower lf=lf := by decide
  have hline := requestLine_bearer hp.visible m
  have hhost : findSub bearerNeedle ((ascii "Host: harness").map asciiLower)=none := by decide
  have htype : findSub bearerNeedle ((ascii "Content-Type: application/json").map asciiLower)=none := by decide
  have hclose : findSub bearerNeedle ((ascii "Connection: close").map asciiLower)=none := by decide
  rw [bearerOk,request_head hp]
  cases token with
  | none =>
    have hnone : findSub bearerNeedle ((requestHead (verb m) path (body.getD []).length none).map asciiLower)=none := by
      rw [requestHead,map_joined,hlow.1,hlow.2]
      apply findSub_lines hcr hlf hne hline
      intro l hl
      simp only [requestFields,List.map_cons,Option.map_none,Option.toList_none,List.map_nil,
        List.nil_append,List.mem_cons,List.not_mem_nil,or_false] at hl
      rcases hl with rfl | rfl | rfl | rfl
      · exact hhost
      · exact htype
      · exact lengthField_bearer _
      · exact hclose
    rw [hnone]
    simp
  | some t =>
    have hcrt : cr∉t := (Printable.breaks (hp.token t rfl)).1
    let front := joined cr lf (requestLine (verb m) path) [ascii "Host: harness",ascii "Content-Type: application/json"]
    let back := joined cr lf (lengthField (body.getD []).length) [ascii "Connection: close"]
    have hhead : requestHead (verb m) path (body.getD []).length (some t)=front++[cr,lf]++(authField t++cr::lf::back) := by
      simp [requestHead,requestFields,front,back,joined]
    have hfield : (authField t).map asciiLower=bearerNeedle++t.map asciiLower := by
      rw [authField,List.map_append]
      rfl
    have hfind : findSub bearerNeedle ((requestHead (verb m) path (body.getD []).length (some t)).map asciiLower)=
        some (front++[cr,lf]).length := by
      have hsplit : (requestHead (verb m) path (body.getD []).length (some t)).map asciiLower=
          joined cr lf ((requestLine (verb m) path).map asciiLower)
            [(ascii "Host: harness").map asciiLower,(ascii "Content-Type: application/json").map asciiLower]++
          cr::lf::((authField t++cr::lf::back).map asciiLower) := by
        rw [hhead,List.map_append,List.map_append,map_joined,hlow.1,hlow.2]
        simp [hlow.1,hlow.2]
      rw [hsplit,findSub_after hcr hlf hne hline]
      · simp [front,joined]
      · intro l hl
        rcases List.mem_cons.mp hl with rfl | hl
        · exact hhost
        · rw [List.mem_singleton.mp hl]
          exact htype
      · rw [List.map_append,hfield,List.append_assoc]
        exact List.prefix_append _ _
    have hneed : (ascii "Authorization: Bearer ").length=bearerNeedle.length := by decide
    have hdrop : (requestHead (verb m) path (body.getD []).length (some t)).drop ((front++[cr,lf]).length+bearerNeedle.length)=
        t++cr::lf::back := by
      rw [hhead,← List.drop_drop,List.drop_left,authField,List.append_assoc,← hneed,List.drop_left]
    have htake : (t++cr::lf::back).takeWhile (fun b => b≠cr)=t := by
      rw [List.takeWhile_append_of_pos]
      · simp
      · intro b hb
        exact decide_eq_true (fun he => hcrt (he ▸ hb))
    simp only [hfind,hdrop,htake,Token.verify_iff,Option.some.injEq]

theorem request_ascii (hp : Plain path token) (m : Control.Method) (n : Nat) :
    ∀b∈requestHead (verb m) path n token,b < 0x80 := by
  intro b hb
  rcases mem_joined cr lf hb with rfl | rfl | hb | ⟨line,hline,hb⟩
  · decide
  · decide
  · exact (requestLine_printable hp m b hb).2
  · exact ((requestFields_printable hp n line hline).2 b hb).2

/-- The connection reads the same length off the head as the parser. -/
theorem request_declares (hp : Plain path token) (m : Control.Method) (hcap : (body.getD []).length ≤ bodyCap) :
    parseContentLength ((requestBytes (verb m) path body token).take
      (requestOf m path (body.getD []).length token).bodyStart)=.ok (some (body.getD []).length) := by
  have hcaps : bodyCap < 2^64 := by decide
  have hterm : terminator.length=4 := by decide
  have htake : (requestBytes (verb m) path body token).take (requestOf m path (body.getD []).length token).bodyStart=
      requestHead (verb m) path (body.getD []).length token++terminator := by
    have hstart : (requestOf m path (body.getD []).length token).bodyStart=
        (requestHead (verb m) path (body.getD []).length token++terminator).length := by
      rw [List.length_append,hterm]
      rfl
    rw [requestBytes_eq,hstart,← List.append_assoc,List.take_left]
  have htext : fromUtf8 (requestHead (verb m) path (body.getD []).length token++terminator)≠none := by
    rw [fromUtf8_ascii]
    · simp
    · intro b hb
      cases List.mem_append.mp hb with
      | inl hb => exact request_ascii hp m _ b hb
      | inr hb =>
        have hall : ∀b∈terminator,b < 0x80 := List.all_iff_forall_prop.mp (by decide)
        exact hall b hb
  have hsplit : splitCrlf (requestHead (verb m) path (body.getD []).length token)=
      requestLine (verb m) path::requestFields (body.getD []).length token :=
    splitCrlf_joined (requestLine_printable hp m).breaks.1
      (fun line hl => (requestFields_printable hp _ line hl).2.breaks.1)
  have hlines : textLines (requestHead (verb m) path (body.getD []).length token++terminator)=
      (requestLine (verb m) path::requestFields (body.getD []).length token)++[[]] := by
    rw [textLines_tidy,hsplit]
    rw [hsplit]
    intro l hl
    cases List.mem_cons.mp hl with
    | inl he =>
      rw [he]
      exact (requestLine_printable hp m).breaks.2
    | inr hl => exact (requestFields_printable hp _ l hl).2.breaks.2
  have hfirst : lengthNeedle.isPrefixOf ((requestLine (verb m) path).map asciiLower)=false := by
    cases m <;> rfl
  have hhost : lengthNeedle.isPrefixOf ((ascii "Host: harness").map asciiLower)=false := by decide
  have htype : lengthNeedle.isPrefixOf ((ascii "Content-Type: application/json").map asciiLower)=false := by decide
  have hauth : ∀t,lengthNeedle.isPrefixOf ((authField t).map asciiLower)=false := fun _ => rfl
  have hlength : lengthNeedle.isPrefixOf ((lengthField (body.getD []).length).map asciiLower)=true := rfl
  have hvalue : (lengthField (body.getD []).length).drop lengthNeedle.length=sp::decimal (body.getD []).length := rfl
  have hfind : ((requestLine (verb m) path::requestFields (body.getD []).length token)++[[]]).find?
      (fun line => lengthNeedle.isPrefixOf (line.map asciiLower))=some (lengthField (body.getD []).length) := by
    cases token with
    | none => simp [requestFields,hfirst,hhost,htype,hlength]
    | some t => simp [requestFields,hfirst,hhost,htype,hauth,hlength]
  have hnumber := textNumber_decimal (Nat.lt_of_le_of_lt hcap hcaps)
  rw [textNumber] at hnumber
  rw [htake,parseContentLength,if_neg htext,hlines,hfind]
  dsimp only
  rw [hvalue,hnumber]

theorem request_complete (hp : Plain path token) (hpost : m=.Post → body.getD []≠[])
    (hcap : (body.getD []).length ≤ bodyCap) (hsize : (requestBytes (verb m) path body token).length < 2^64) :
    Complete (requestBytes (verb m) path body token) (requestOf m path (body.getD []).length token) :=
  ⟨request_parses hp hpost hcap,request_length m path body token,hsize⟩

theorem request_covered (hp : Plain path token) (hpost : m=.Post → body.getD []≠[])
    (hcap : (body.getD []).length ≤ bodyCap) (hsize : (requestBytes (verb m) path body token).length < 2^64) :
    Covered (requestBytes (verb m) path body token) := by
  apply (complete_covered (request_complete hp hpost hcap hsize)).mpr
  refine ⟨_,request_declares hp m hcap,?_⟩
  intro len hlen
  exact Nat.le_of_eq (Option.some.inj hlen).symm

/-- The pass that reads the request, all of it at once, calls the router with it. -/
theorem request_routed (hp : Plain path token) (hpost : m=.Post → body.getD []≠[])
    (hcap : (body.getD []).length ≤ bodyCap) (hread : (requestBytes (verb m) path body token).length ≤ readSize)
    (sent : Option Nat) : ((ClientSlot.live .new).pass ⟨false,.data (requestBytes (verb m) path body token),sent⟩).2=
      some (requestBytes (verb m) path body token) := by
  have hcovered := request_covered hp hpost hcap (Nat.lt_of_le_of_lt hread (by decide))
  have hturn : ¬Quiet ([]++requestBytes (verb m) path body token) := by
    intro hq
    obtain ⟨pos,hpos⟩ := covered_head hcovered
    have hnone := hq.2
    rw [List.nil_append,hpos] at hnone
    cases hnone
  have hpass := @pass_turn [] _ ⟨false,.data (requestBytes (verb m) path body token),sent⟩ rfl rfl hturn
  rw [List.nil_append] at hpass
  exact hpass.2.1 hcovered

end Request

/-- What a client of the harness sends is accepted as it was built: its method, its path up to the query, its body and
its token are read back, and the connection and the parser agree on its length. Where the connection takes it in at one
read, the pass that reads it calls the router with it. -/
theorem client_request (m : Control.Method) (path : Bytes) (body token : Option Bytes) (hp : Plain path token)
    (hpost : m=.Post → body.getD []≠[]) (hcap : (body.getD []).length ≤ bodyCap)
    (hsize : (requestBytes (verb m) path body token).length < 2^64) :
    ∃req,Complete (requestBytes (verb m) path body token) req ∧
      parseContentLength ((requestBytes (verb m) path body token).take req.bodyStart)=.ok (some req.contentLength) ∧
      req.method=m ∧
      req.target (requestBytes (verb m) path body token)=path.take ((path.idxOf? questionMark).getD path.length) ∧
      req.body (requestBytes (verb m) path body token)=body.getD [] ∧
      (∀expected,bearerOk (requestBytes (verb m) path body token) expected=true ↔ token=some expected.toList) ∧
      ((requestBytes (verb m) path body token).length ≤ readSize → ∀sent,
        ((ClientSlot.live .new).pass ⟨false,.data (requestBytes (verb m) path body token),sent⟩).2=
          some (requestBytes (verb m) path body token)) := by
  refine ⟨requestOf m path (body.getD []).length token,request_complete hp hpost hcap hsize,request_declares hp m hcap,rfl,
    request_target m path body token,request_body m path body token,?_,?_⟩
  · exact request_bearer hp m body
  · intro hread
    exact request_routed hp hpost hcap hread

/-- The post of an intent under the token. -/
def postedRequest : Bytes :=
  requestBytes (verb .Post) intentsPath (some (utf8 (intentBody '1'))) (some sampleToken.toList)

/-- The post is complete in one read, and the router is called with the token and the body in it. -/
theorem client_request_sample : ∃req,Complete postedRequest req ∧
    parseContentLength (postedRequest.take req.bodyStart)=.ok (some req.contentLength) ∧ req.method=.Post ∧
    req.target postedRequest=intentsPath ∧ req.body postedRequest=utf8 (intentBody '1') ∧
    bearerOk postedRequest sampleToken=true ∧
    ∀sent,((ClientSlot.live .new).pass ⟨false,.data postedRequest,sent⟩).2=some postedRequest := by
  have hp : Plain intentsPath (some sampleToken.toList) := by
    refine ⟨List.all_iff_forall_prop.mp (by decide),?_⟩
    intro t ht
    cases ht
    have hprintable : Printable sampleToken.toList := by decide +kernel
    exact hprintable
  have hread : postedRequest.length ≤ readSize := by decide +kernel
  have hbody : utf8 (intentBody '1')≠[] := by decide +kernel
  obtain ⟨req,hreq,hlength,hm,ht,hb,hbearer,hpass⟩ := client_request .Post intentsPath (some (utf8 (intentBody '1')))
    (some sampleToken.toList) hp (fun _ => hbody) (by decide +kernel) (Nat.lt_of_le_of_lt hread (by decide))
  have htarget : intentsPath.take ((intentsPath.idxOf? questionMark).getD intentsPath.length)=intentsPath := by decide
  exact ⟨req,hreq,hlength,hm,ht.trans htarget,hb,(hbearer sampleToken).mpr rfl,hpass hread⟩

end Bolina.Client
