import Bolina.Control.PostIntent
import Bolina.Framework.ListSearch
import Bolina.Framework.Utf8

namespace Bolina.Control

open ListSearch Utf8

def headerCap : Nat := 8192
def bodyCap : Nat := 64*1024

inductive Bad where
  | MalformedLine
  | BadVersion
  | BadMethod
  | TransferEncoding
  | LengthRequired
  | ConflictingLength
  | ObsFold
  | SpaceBeforeColon
  | DoubleSP
  | ControlInTarget
  deriving DecidableEq,Repr

inductive ParseError where
  | Incomplete
  | HeadersTooLarge
  | BodyTooLarge
  | BadRequest (bad : Bad)
  deriving DecidableEq,Repr

inductive Method where
  | Get
  | Post
  deriving DecidableEq,Repr

/-- Offsets into the buffer; the target ends before its query. -/
structure Request where
  method : Method
  targetStart : Nat
  targetEnd : Nat
  queryStart : Option Nat
  contentLength : Nat
  bodyStart : Nat
  deriving DecidableEq,Repr

def cr : UInt8 := 0x0d
def lf : UInt8 := 0x0a
def sp : UInt8 := 0x20
def htab : UInt8 := 0x09
def colonByte : UInt8 := 0x3a
def questionMark : UInt8 := 0x3f

def crlf : Bytes := [cr,lf]

/-- The end of the head. -/
def terminator : Bytes := [cr,lf,cr,lf]

def http11 : Bytes := ascii "HTTP/1.1"

def trim (s : List Char) : List Char := (trimStart (trimStart s).reverse).reverse

def digitValue (c : Char) : Option Nat := if 0x30 ≤ c.toNat ∧ c.toNat ≤ 0x39 then some (c.toNat-0x30) else none

/-- Decimal digits, at least one of them. -/
def parseDigits (s : List Char) : Option Nat :=
  if s=[] then none
  else s.foldl (fun n c => n.bind (fun n => (digitValue c).map (fun d => 10*n+d))) (some 0)

/-- A number of 64 bits as the standard library reads it: a plus sign may stand in front. -/
def parseUsize (s : List Char) : Option Nat :=
  (parseDigits ((stripPrefix '+' s).getD s)).filter (fun n => n < 2^64)

/-- The lines of a byte string that CRLF separates. -/
def splitCrlf : Bytes → List Bytes
  | [] => [[]]
  | [b] => [[b]]
  | b::c::rest =>
    if b=cr ∧ c=lf then []::splitCrlf rest
    else
      match splitCrlf (c::rest) with
      | [] => [[b]]
      | line::lines => (b::line)::lines

def methodOf (name : Bytes) : Option Method :=
  if name=ascii "GET" then some .Get else if name=ascii "POST" then some .Post else none

/-- The request line: its method, and its target with where it starts. -/
structure RequestLine where
  method : Method
  targetStart : Nat
  target : Bytes
  deriving DecidableEq

def parseLine (line : Bytes) : Except Bad RequestLine :=
  match line.idxOf? sp with
  | none => .error .MalformedLine
  | some sp1 =>
    if line.count sp≠2 then .error .DoubleSP
    else
      let rest := line.drop (sp1+1)
      match rest.idxOf? sp with
      | none => .error .MalformedLine
      | some sp2 =>
        let target := rest.take sp2
        if rest.drop (sp2+1)≠http11 then .error .BadVersion
        else
          match methodOf (line.take sp1) with
          | none => .error .BadMethod
          | some method =>
            if target.any (fun b => b < 0x21) then .error .ControlInTarget
            else .ok ⟨method,sp1+1,target⟩

/-- A header field: the length it declares, if it is the one that does. -/
def parseField (field : Bytes) : Except Bad (Option Nat) :=
  if field.head?=some sp ∨ field.head?=some htab then .error .ObsFold
  else
    match field.idxOf? colonByte with
    | none => .error .MalformedLine
    | some colon =>
      if 0 < colon ∧ field[colon-1]?=some sp then .error .SpaceBeforeColon
      else
        let name := field.take colon
        let value := field.drop (colon+1)
        if name=ascii "Content-Length" then
          match (fromUtf8 value).bind (fun s => parseUsize (trim s)) with
          | none => .error .LengthRequired
          | some v => .ok (some v)
        else if name=ascii "Transfer-Encoding" then .error .TransferEncoding
        else .ok none

/-- The loop over the fields, with the length declared so far; an empty line ends it. -/
def parseFields : List Bytes → Option Nat → Except Bad (Option Nat)
  | [],contentLength => .ok contentLength
  | field::rest,contentLength =>
    if field=[] then .ok contentLength
    else
      match parseField field with
      | .error e => .error e
      | .ok none => parseFields rest contentLength
      | .ok (some v) =>
        match contentLength with
        | none => parseFields rest (some v)
        | some prev => if prev≠v then .error .ConflictingLength else parseFields rest (some v)

/-- The request line ends at the first CRLF, or with the head. -/
def lineEnd (head : Bytes) : Nat := (findSub crlf head).getD head.length

def parse (buf : Bytes) : Except ParseError Request :=
  match findSub terminator buf with
  | none => if headerCap < buf.length then .error .HeadersTooLarge else .error .Incomplete
  | some headEnd =>
    let head := buf.take headEnd
    match parseLine (head.take (lineEnd head)) with
    | .error e => .error (.BadRequest e)
    | .ok line =>
      match parseFields (splitCrlf (head.drop (lineEnd head+2))) none with
      | .error e => .error (.BadRequest e)
      | .ok declared =>
        let contentLength := declared.getD 0
        if line.method=.Post ∧ contentLength=0 then .error (.BadRequest .LengthRequired)
        else if bodyCap < contentLength then .error .BodyTooLarge
        else
          let q := line.target.idxOf? questionMark
          .ok { method := line.method
                targetStart := line.targetStart
                targetEnd := line.targetStart+q.getD line.target.length
                queryStart := q.map (fun q => line.targetStart+q+1)
                contentLength
                bodyStart := headEnd+4 }

/-- A text with something else than a digit is no number. -/
theorem foldl_digits_none (s : List Char) :
    s.foldl (fun n c => n.bind (fun n => (digitValue c).map (fun d => 10*n+d))) (none : Option Nat)=none := by
  induction s with
  | nil => rfl
  | cons c s ih => exact ih

section Accepted

variable {buf : Bytes} {req : Request}

/-- Everything an accepted request has passed. -/
structure Parsed (buf : Bytes) (req : Request) (headEnd : Nat) (line : RequestLine) (declared : Option Nat) :
    Prop where
  ends : findSub terminator buf=some headEnd
  lined : parseLine ((buf.take headEnd).take (lineEnd (buf.take headEnd)))=.ok line
  fields : parseFields (splitCrlf ((buf.take headEnd).drop (lineEnd (buf.take headEnd)+2))) none=.ok declared
  posts : ¬(line.method=.Post ∧ declared.getD 0=0)
  fits : declared.getD 0 ≤ bodyCap
  eq : req={ method := line.method
             targetStart := line.targetStart
             targetEnd := line.targetStart+(line.target.idxOf? questionMark).getD line.target.length
             queryStart := (line.target.idxOf? questionMark).map (fun q => line.targetStart+q+1)
             contentLength := declared.getD 0
             bodyStart := headEnd+4 }

theorem parse_ok (h : parse buf=.ok req) : ∃headEnd line declared,Parsed buf req headEnd line declared := by
  rw [parse] at h
  cases hend : findSub terminator buf with
  | none =>
    rw [hend] at h
    simp only at h
    split at h <;> cases h
  | some headEnd =>
    rw [hend] at h
    simp only at h
    cases hline : parseLine ((buf.take headEnd).take (lineEnd (buf.take headEnd))) with
    | error e =>
      rw [hline] at h
      cases h
    | ok line =>
      rw [hline] at h
      simp only at h
      cases hfields : parseFields (splitCrlf ((buf.take headEnd).drop (lineEnd (buf.take headEnd)+2))) none with
      | error e =>
        rw [hfields] at h
        cases h
      | ok declared =>
        rw [hfields] at h
        simp only at h
        by_cases hpost : line.method=.Post ∧ declared.getD 0=0
        · rw [if_pos hpost] at h
          cases h
        · by_cases hcap : bodyCap < declared.getD 0
          · rw [if_neg hpost,if_pos hcap] at h
            cases h
          · rw [if_neg hpost,if_neg hcap] at h
            exact ⟨headEnd,line,declared,hend,hline,hfields,hpost,Nat.le_of_not_lt hcap,(Except.ok.inj h).symm⟩

/-- A line without a carriage return ends where its own CRLF stands. -/
theorem lineEnd_line {line rest : Bytes} {headEnd : Nat} (hcr : cr∉line)
    (hend : findSub terminator (line++(crlf++rest))=some headEnd) :
    ((line++(crlf++rest)).take headEnd).take (lineEnd ((line++(crlf++rest)).take headEnd))=line := by
  have hfirst : findSub crlf (line++(crlf++rest))=some line.length := findSub_first line rest cr hcr
  have hterm := (findSub_some hend).1
  have hle : headEnd+4 ≤ (line++(crlf++rest)).length := findSub_le hend
  have hcrlf : crlf <+: (line++(crlf++rest)).drop headEnd := (List.prefix_append crlf crlf).trans hterm
  have hge : line.length ≤ headEnd := by
    by_contra hlt
    exact (findSub_some hfirst).2 headEnd (by omega) hcrlf
  by_cases heq : headEnd=line.length
  · have hnone : findSub crlf line=none := findSub_absent cr hcr
    rw [heq,List.take_left,lineEnd,hnone]
    exact List.take_length
  · -- the terminator cannot start at the second byte of the line's own CRLF
    have hnext : headEnd≠line.length+1 := by
      intro he
      rw [he,← List.drop_drop,List.drop_left] at hterm
      exact absurd (List.cons_prefix_cons.mp hterm).1 (by decide)
    have hlen : ((line++(crlf++rest)).take headEnd).length=headEnd := by
      rw [List.length_take]
      omega
    have hin : findSub crlf ((line++(crlf++rest)).take headEnd)=some line.length := by
      rw [← findSub_append ((line++(crlf++rest)).drop headEnd) (by rw [hlen]; change line.length+2 ≤ headEnd; omega),
        List.take_append_drop]
      exact hfirst
    rw [lineEnd,hin,Option.getD_some,List.take_take,Nat.min_eq_left hge,List.take_left]

/-- The line of a GET. -/
def getLine (target : Bytes) : Bytes := ascii "GET "++target++ascii " HTTP/1.1"

theorem getLine_eq (target : Bytes) : getLine target=ascii "GET"++sp::(target++sp::http11) := by
  change (ascii "GET"++[sp])++target++(sp::http11)=_
  simp

theorem getLine_noCr {target : Bytes} (h : cr∉target) : cr∉getLine target := by
  have hfront : cr∉ascii "GET " := by decide
  have hback : cr∉ascii " HTTP/1.1" := by decide
  simp only [getLine,List.mem_append,not_or]
  exact ⟨⟨hfront,h⟩,hback⟩

theorem getLine_length (target : Bytes) : (getLine target).length=target.length+13 := by
  have hfront : (ascii "GET ").length=4 := by decide
  have hback : (ascii " HTTP/1.1").length=9 := by decide
  rw [getLine,List.length_append,List.length_append,hfront,hback]
  omega

theorem getLine_count (target : Bytes) : (getLine target).count sp=2+target.count sp := by
  have hget : (ascii "GET").count sp=0 := by decide
  have hver : http11.count sp=0 := by decide
  rw [getLine_eq,List.count_append,List.count_cons_self,List.count_append,List.count_cons_self,hget,hver]
  omega

/-- A target without a space is all that stands between the method and the version. -/
theorem parseLine_getLine {target : Bytes} (h : sp∉target) : parseLine (getLine target)=
    if target.any (fun b => b < 0x21) then .error .ControlInTarget else .ok ⟨.Get,4,target⟩ := by
  have hsp1 : (getLine target).idxOf? sp=some 3 := by
    rw [getLine_eq]
    exact idxOf?_first (ascii "GET") _ sp (by decide)
  have hrest : (getLine target).drop 4=target++sp::http11 := by
    rw [getLine_eq]
    rfl
  have hsp2 : (target++sp::http11).idxOf? sp=some target.length := idxOf?_first target http11 sp h
  have hver : (target++sp::http11).drop (target.length+1)=http11 := by
    rw [← List.drop_drop,List.drop_left]
    rfl
  have hmethod : methodOf ((getLine target).take 3)=some .Get := by
    rw [getLine_eq]
    rfl
  rw [parseLine,hsp1]
  simp only [getLine_count,List.count_eq_zero.mpr h,Nat.add_zero,hrest,hsp2,hver,hmethod,List.take_left,ne_eq,
    not_true_eq_false,if_false]

theorem parseLine_get {target : Bytes} {line : RequestLine} (h : parseLine (getLine target)=.ok line) :
    sp∉target ∧ line=⟨.Get,4,target⟩ := by
  have hsp1 : (getLine target).idxOf? sp=some 3 := by
    rw [getLine_eq]
    exact idxOf?_first (ascii "GET") _ sp (by decide)
  by_cases hno : sp∈target
  · have hpos : 0 < target.count sp := List.count_pos_iff.mpr hno
    rw [parseLine,hsp1] at h
    simp only [getLine_count] at h
    rw [if_pos (by omega)] at h
    cases h
  · rw [parseLine_getLine hno] at h
    split at h
    · cases h
    · exact ⟨hno,(Except.ok.inj h).symm⟩

/-- A GET without header fields. -/
theorem parse_getLine {target : Bytes} (h : ∀b∈target,¬b < 0x21) : parse (getLine target++terminator)=.ok
    { method := .Get
      targetStart := 4
      targetEnd := 4+(target.idxOf? questionMark).getD target.length
      queryStart := (target.idxOf? questionMark).map (fun q => 4+q+1)
      contentLength := 0
      bodyStart := (getLine target).length+4 } := by
  have hcr : cr∉getLine target := getLine_noCr (fun hm => h cr hm (by decide))
  have hsp : sp∉target := fun hm => h sp hm (by decide)
  have hvisible : target.any (fun b => b < 0x21)=false := by
    rw [List.any_eq_false]
    intro b hb
    simpa using h b hb
  have hterm : findSub terminator (getLine target++terminator)=some (getLine target).length := by
    have hfirst : findSub terminator (getLine target++(terminator++[]))=some (getLine target).length :=
      findSub_first (getLine target) [] cr hcr
    rw [List.append_nil] at hfirst
    exact hfirst
  have hend : lineEnd (getLine target)=(getLine target).length := by
    have hnone : findSub crlf (getLine target)=none := findSub_absent cr hcr
    rw [lineEnd,hnone,Option.getD_none]
  have hline := parseLine_getLine hsp
  rw [hvisible,if_neg (by decide)] at hline
  rw [parse]
  simp only [hterm,List.take_left,hend,List.take_length,hline,List.drop_of_length_le (Nat.le_add_right _ 2)]
  rfl

/-- What the parser reads off a GET. -/
theorem parse_get {target rest : Bytes} (hcr : cr∉target) (h : parse (getLine target++(crlf++rest))=.ok req) :
    sp∉target ∧ req.method=.Get ∧ req.targetStart=4 ∧
      req.targetEnd=4+(target.idxOf? questionMark).getD target.length ∧
      req.queryStart=(target.idxOf? questionMark).map (fun q => 4+q+1) := by
  have hline : cr∉getLine target := getLine_noCr hcr
  obtain ⟨headEnd,line,declared,hp⟩ := parse_ok h
  have hl := hp.lined
  rw [lineEnd_line hline hp.ends] at hl
  obtain ⟨hsp,he⟩ := parseLine_get hl
  have hreq := hp.eq
  subst he
  rw [hreq]
  exact ⟨hsp,rfl,rfl,rfl,rfl⟩

end Accepted

example : parse (ascii "GET /a/b?k=v HTTP/1.1\r\n\r\n")=.ok ⟨.Get,4,8,some 9,0,25⟩ := by decide

end Bolina.Control
