import Bolina.Control.Connection
import Bolina.Control.HeaderGuards

namespace Bolina.Control

open ListSearch Utf8

/-- The head with its terminator. -/
def wholeHead (buf : Bytes) : Bytes := headOf buf++terminator

/-- The line starts like a field that declares a length, in any case. -/
def startsLength (line : Bytes) : Bool := lengthNeedle.isPrefixOf (line.map asciiLower)

/-- The connection reads the length of the request off its head, or none where it is zero
and no field declares one. -/
def Agrees (buf : Bytes) (req : Request) : Prop :=
  parseContentLength (buf.take req.bodyStart)=.ok (some req.contentLength) ∨
    (parseContentLength (buf.take req.bodyStart)=.ok none ∧ req.contentLength=0 ∧
      ∀f∈fieldLines buf,lowerName f≠lengthName.map asciiLower)

/-- The head is a text, and the first of its lines to declare a length, in whatever case
and behind whatever break, declares the one that the parser reads. -/
structure Legible (buf : Bytes) : Prop where
  text : fromUtf8 (wholeHead buf)≠none
  first : ∀line,(textLines (wholeHead buf)).find? startsLength=some line →
    textNumber (line.drop lengthNeedle.length)=some ((spelledLength buf).getD 0)

section Lines

variable {xs ys line : Bytes}

theorem splitLf_ne (xs : Bytes) : splitLf xs≠[] := by
  cases xs with
  | nil => simp [splitLf]
  | cons b xs =>
    rw [splitLf]
    split_ifs
    · simp
    · split <;> simp

theorem splitLf_cons {b : UInt8} (h : b≠lf) {first : Bytes} {more : List Bytes} (hs : splitLf xs=first::more) :
    splitLf (b::xs)=(b::first)::more := by
  rw [splitLf,if_neg h,hs]

theorem splitLf_append (xs ys : Bytes) : splitLf (xs++lf::ys)=splitLf xs++splitLf ys := by
  induction xs with
  | nil => simp [splitLf]
  | cons b xs ih =>
    rw [List.cons_append]
    by_cases hb : b=lf
    · rw [splitLf,if_pos hb,ih,splitLf,if_pos hb]
      rfl
    · obtain ⟨first,more,hs⟩ := List.exists_cons_of_ne_nil (splitLf_ne xs)
      rw [hs] at ih
      rw [splitLf_cons hb ih,splitLf_cons hb hs]
      rfl

theorem splitLf_one (h : lf∉xs) : splitLf xs=[xs] := by
  induction xs with
  | nil => rfl
  | cons b xs ih =>
    rw [List.mem_cons,not_or] at h
    exact splitLf_cons (Ne.symm h.1) (ih h.2)

/-- A line of the text that starts with `p` stands where `p` follows a line feed. -/
theorem textLines_at {x p rest : Bytes} {b : UInt8} (hp : lf∉p++[b]) (hb : b≠cr) (hrest : lf∈rest) :
    ∃line∈textLines (x++(lf::(p++(b::rest)))),p++[b] <+: line := by
  obtain ⟨r,z,hz,hr⟩ := List.eq_append_cons_of_mem hrest
  have hline : lf∉(p++[b])++r := by
    rw [List.mem_append,not_or]
    exact ⟨hp,hr⟩
  have hall : splitLf (x++(lf::(p++(b::rest))))=splitLf x++((p++[b])++r)::splitLf z := by
    have hmove : p++(b::rest)=((p++[b])++r)++(lf::z) := by
      rw [hz]
      simp
    rw [splitLf_append,hmove,splitLf_append,splitLf_one hline]
    rfl
  have hfirst : (splitLf x++((p++[b])++r)::splitLf z).dropLast=splitLf x++((p++[b])++r)::(splitLf z).dropLast := by
    rw [List.dropLast_append_of_ne_nil (by simp),List.dropLast_cons_of_ne_nil (splitLf_ne z)]
  refine ⟨stripCr ((p++[b])++r),?_,?_⟩
  · rw [textLines,hall,hfirst]
    apply List.mem_append_left
    apply List.mem_map_of_mem
    exact List.mem_append_right _ List.mem_cons_self
  · -- a carriage return is taken off the end only
    rw [stripCr]
    cases r with
    | nil =>
      rw [List.append_nil,List.getLast?_append,List.getLast?_singleton,Option.some_or,if_neg (by simpa using hb)]
    | cons c r =>
      split
      · rw [List.dropLast_append_of_ne_nil (by simp)]
        exact List.prefix_append _ _
      · exact List.prefix_append _ _

end Lines

section Place

/-- Every line of a head stands between two CRLFs. -/
theorem splitCrlf_place (n : Nat) (bs : Bytes) (hn : bs.length ≤ n) {l : Bytes} (hl : l∈splitCrlf bs) :
    ∃a z,crlf++(bs++crlf)=a++(crlf++(l++(crlf++z))) := by
  induction n generalizing bs with
  | zero =>
    have hnil : bs=[] := List.eq_nil_of_length_eq_zero (Nat.le_zero.mp hn)
    rw [hnil,splitCrlf,List.mem_singleton] at hl
    exact ⟨[],[],by rw [hnil,hl]; rfl⟩
  | succ n ih =>
    rw [splitCrlf_first] at hl
    cases hf : findSub crlf bs with
    | none =>
      rw [hf] at hl
      rw [List.mem_singleton.mp hl]
      exact ⟨[],[],by simp⟩
    | some i =>
      rw [hf] at hl
      have hsplit : bs=bs.take i++(crlf++bs.drop (i+2)) := findSub_split hf
      have hle : i+crlf.length ≤ bs.length := findSub_le hf
      have htwo : crlf.length=2 := rfl
      cases List.mem_cons.mp hl with
      | inl hfirst =>
        refine ⟨[],bs.drop (i+2)++crlf,?_⟩
        conv_lhs => rw [hsplit]
        rw [hfirst]
        simp
      | inr hmore =>
        obtain ⟨a,z,haz⟩ := ih (bs.drop (i+2)) (by rw [List.length_drop]; omega) hmore
        refine ⟨crlf++(bs.take i++a),z,?_⟩
        conv_lhs => rw [hsplit]
        simp only [List.append_assoc]
        rw [haz]

variable {buf f : Bytes}

/-- A field follows a line feed, and another one follows it. -/
theorem field_place (hf : f∈fieldLines buf) :
    ∃x z,wholeHead buf=x++(lf::(f++(cr::lf::z))) := by
  have hmem := (List.mem_filter.mp hf).1
  cases hc : findSub crlf (headOf buf) with
  | none =>
    rw [headerFields_none hc,List.mem_singleton] at hmem
    exact absurd hmem (fieldLines_ne hf)
  | some i =>
    rw [headerFields,lineEnd,hc,Option.getD_some] at hmem
    have hsplit : headOf buf=(headOf buf).take i++(crlf++(headOf buf).drop (i+2)) := findSub_split hc
    obtain ⟨a,z,haz⟩ := splitCrlf_place _ _ (Nat.le_refl _) hmem
    refine ⟨(headOf buf).take i++(a++[cr]),z++crlf,?_⟩
    have hterm : terminator=crlf++crlf := rfl
    rw [wholeHead]
    conv_lhs => rw [hsplit,hterm]
    have hmove : crlf++((headOf buf).drop (i+2)++(crlf++crlf))=(a++(crlf++(f++(crlf++z))))++crlf := by
      rw [← haz]
      simp
    rw [List.append_assoc,List.append_assoc,hmove]
    simp [crlf]

/-- A field is its name, a colon and its value. -/
theorem field_parts (h : colonByte∈f) : f=fieldName f++(colonByte::fieldValue f) := by
  cases hi : f.idxOf? colonByte with
  | none =>
    rw [List.idxOf?_eq_none_iff] at hi
    exact absurd h hi
  | some i =>
    obtain ⟨_,htake,hdrop⟩ := idxOf?_cut hi
    have hsplit := idxOf?_split hi
    have hvalue : f.drop (i+1)=fieldValue f := by
      rw [← List.drop_drop,hdrop]
      rfl
    rw [hvalue,htake] at hsplit
    exact hsplit

/-- A field that declares a length in some case is at the front of a line of the text. -/
theorem length_line (hf : f∈fieldLines buf) (hc : colonByte∈f)
    (hn : lowerName f=lengthName.map asciiLower) : ∃line∈textLines (wholeHead buf),startsLength line=true := by
  obtain ⟨x,z,hplace⟩ := field_place hf
  have hlower : ∀b : UInt8,b∈fieldName f → asciiLower b∈lengthName.map asciiLower := by
    intro b hb
    rw [← hn]
    exact List.mem_map_of_mem hb
  have hlf : lf∉fieldName f++[colonByte] := by
    intro hm
    cases List.mem_append.mp hm with
    | inl hm => exact absurd (hlower lf hm) (by decide)
    | inr hm => exact absurd hm (by decide)
  have hback : lf∈fieldValue f++(cr::lf::z) := by simp
  obtain ⟨line,hline,hp⟩ := textLines_at (x := x) hlf (by decide) hback
  have hwhole : wholeHead buf=x++(lf::(fieldName f++(colonByte::(fieldValue f++(cr::lf::z))))) := by
    rw [hplace]
    conv_lhs => rw [field_parts hc]
    simp
  refine ⟨line,by rw [hwhole]; exact hline,?_⟩
  have hneedle : (fieldName f++[colonByte]).map asciiLower=lengthNeedle := by
    rw [List.map_append]
    change lowerName f++_=_
    rw [hn]
    decide
  rw [startsLength,List.isPrefixOf_iff_prefix,← hneedle]
  exact hp.map asciiLower

end Place

section Agreement

variable {buf : Bytes} {req : Request}

theorem wholeHead_eq (h : parse buf=.ok req) : buf.take req.bodyStart=wholeHead buf := by
  obtain ⟨headEnd,line,declared,hp⟩ := parse_ok h
  have hsplit := findSub_split hp.ends
  have hlen : (headOf buf++terminator).length=headEnd+4 := by
    rw [List.length_append,headOf_length hp.ends]
    rfl
  have hbody : req.bodyStart=headEnd+4 := by rw [hp.eq]
  rw [← headOf_eq hp.ends,← List.append_assoc] at hsplit
  rw [hbody,hsplit,← hlen,List.take_left,← hsplit]
  rfl

/-- Where no line declares a length, no field does. -/
theorem unspelled (h : parse buf=.ok req) (hf : (textLines (wholeHead buf)).find? startsLength=none) :
    req.contentLength=0 ∧ ∀f∈fieldLines buf,lowerName f≠lengthName.map asciiLower := by
  have hno : ∀f∈fieldLines buf,lowerName f≠lengthName.map asciiLower := by
    intro f hmem hlower
    obtain ⟨⟨r,hok⟩,_⟩ := accepted_field h hmem
    obtain ⟨line,hline,hstarts⟩ := length_line hmem hok.colon hlower
    exact absurd hstarts (List.find?_eq_none.mp hf line hline)
  refine ⟨accepted_undeclared h ?_,hno⟩
  intro f hmem hname
  exact hno f hmem (by rw [lowerName,hname])

/-- A text with such a line is legible when the first of them declares the length of the parser. -/
theorem legible_first (htext : fromUtf8 (wholeHead buf)≠none) {line : Bytes}
    (hf : (textLines (wholeHead buf)).find? startsLength=some line) :
    Legible buf ↔ textNumber (line.drop lengthNeedle.length)=some ((spelledLength buf).getD 0) := by
  constructor
  · intro hl
    exact hl.first line hf
  · intro hv
    refine ⟨htext,?_⟩
    intro line' hline'
    rw [hf] at hline'
    rw [← Option.some.inj hline']
    exact hv

/-- The two readers agree exactly on the heads that are legible. -/
theorem readersAgree_iff (buf : Bytes) (req : Request) (h : parse buf=.ok req) : Agrees buf req ↔ Legible buf := by
  have hn := spelledLength_eq h
  rw [Agrees,wholeHead_eq h,parseContentLength]
  by_cases htext : fromUtf8 (wholeHead buf)=none
  · rw [if_pos htext]
    constructor
    · intro ha
      rcases ha with he | he
      · cases he
      · cases he.1
    · intro hl
      exact absurd htext hl.text
  · rw [if_neg htext]
    have hfind : (textLines (wholeHead buf)).find? (fun line => lengthNeedle.isPrefixOf (line.map asciiLower))=
        (textLines (wholeHead buf)).find? startsLength := rfl
    rw [hfind]
    cases hf : (textLines (wholeHead buf)).find? startsLength with
    | none =>
      constructor
      · intro _
        exact ⟨htext,fun line hline => by rw [hf] at hline; cases hline⟩
      · intro _
        exact .inr ⟨rfl,unspelled h hf⟩
    | some line =>
      rw [legible_first htext hf,hn]
      dsimp only
      cases hv : textNumber (line.drop lengthNeedle.length) with
      | none =>
        rw [textNumber] at hv
        rw [hv]
        simp
      | some len =>
        rw [textNumber] at hv
        rw [hv]
        simp

/-- On a head they agree on, the body that is waited for is the one that is sliced. -/
theorem agrees_waits (h : parse buf=.ok req) (ha : Agrees buf req) (hs : req.bodyStart+req.contentLength < 2^64) :
    ∃c,headDone buf req.bodyStart=some (.ok c) ∧ c.buf=buf ∧
      (c.state=.Writing ↔ req.bodyStart+req.contentLength ≤ buf.length) := by
  obtain ⟨headEnd,line,declared,hp⟩ := parse_ok h
  have hbody : req.bodyStart ≤ buf.length := by
    have hle : headEnd+terminator.length ≤ buf.length := findSub_le hp.ends
    have hstart : req.bodyStart=headEnd+4 := by rw [hp.eq]
    rw [hstart]
    exact hle
  rw [headDone]
  rcases ha with hsome | hnone
  · rw [hsome]
    dsimp only
    rw [if_neg (by omega)]
    by_cases hshort : buf.length < req.bodyStart+req.contentLength
    · rw [if_pos hshort]
      exact ⟨_,rfl,rfl,by simp; omega⟩
    · rw [if_neg hshort]
      exact ⟨_,rfl,rfl,by simp; omega⟩
  · obtain ⟨hread,hzero,_⟩ := hnone
    rw [hread,hzero]
    exact ⟨_,rfl,rfl,by simp; omega⟩

/-- No field breaks off at a bare line feed, and none declares a length in another spelling. -/
structure Tidy (buf : Bytes) : Prop where
  text : fromUtf8 (wholeHead buf)≠none
  breaks : ∀f∈fieldLines buf,lf∉f
  spelled : ∀f∈fieldLines buf,lowerName f=lengthName.map asciiLower → fieldName f=lengthName

theorem splitLf_lines (n : Nat) (bs rest : Bytes) (hn : bs.length ≤ n) (h : ∀l∈splitCrlf bs,lf∉l) :
    splitLf (bs++(cr::lf::rest))=(splitCrlf bs).map (fun l => l++[cr])++splitLf rest := by
  have hone : ∀l rest : Bytes,lf∉l → splitLf (l++(cr::lf::rest))=(l++[cr])::splitLf rest := by
    intro l rest hl
    have hmove : l++(cr::lf::rest)=(l++[cr])++(lf::rest) := by simp
    have hline : lf∉l++[cr] := by
      rw [List.mem_append,not_or]
      exact ⟨hl,by decide⟩
    rw [hmove,splitLf_append,splitLf_one hline]
    rfl
  induction n generalizing bs with
  | zero =>
    have hnil : bs=[] := List.eq_nil_of_length_eq_zero (Nat.le_zero.mp hn)
    rw [hnil]
    exact hone [] rest (by simp)
  | succ n ih =>
    have hs := splitCrlf_first bs
    cases hf : findSub crlf bs with
    | none =>
      rw [hf] at hs
      dsimp only at hs
      rw [hs] at h ⊢
      exact hone bs rest (h bs List.mem_cons_self)
    | some i =>
      rw [hf] at hs
      dsimp only at hs
      rw [hs] at h ⊢
      have hsplit : bs=bs.take i++(crlf++bs.drop (i+2)) := findSub_split hf
      have hle : i+crlf.length ≤ bs.length := findSub_le hf
      have htwo : crlf.length=2 := rfl
      have hrest := ih (bs.drop (i+2)) (by rw [List.length_drop]; omega)
        (fun l hl => h l (List.mem_cons_of_mem _ hl))
      have hmove : bs++(cr::lf::rest)=bs.take i++(cr::lf::(bs.drop (i+2)++(cr::lf::rest))) := by
        conv_lhs => rw [hsplit]
        simp [crlf]
      rw [hmove,hone _ _ (h _ List.mem_cons_self),hrest]
      rfl

/-- In a tidy head both readers see the same lines. -/
theorem textLines_tidy {bs : Bytes} (h : ∀l∈splitCrlf bs,lf∉l) : textLines (bs++terminator)=splitCrlf bs++[[]] := by
  have hall : splitLf (bs++terminator)=((splitCrlf bs).map (fun l => l++[cr])++[[cr]])++[[]] := by
    have hs := splitLf_lines _ bs crlf (Nat.le_refl _) h
    rw [List.append_assoc]
    exact hs
  have hstrip : ((splitCrlf bs).map (fun l => l++[cr])).map stripCr=splitCrlf bs := by
    rw [List.map_map]
    conv_rhs => rw [← List.map_id (splitCrlf bs)]
    apply List.map_congr_left
    intro l _
    simp [stripCr]
  rw [textLines,hall,List.dropLast_concat,List.getLast?_concat,List.map_append,hstrip]
  simp [stripCr]

/-- A line that starts so is the field of a length. -/
theorem startsLength_field {line : Bytes} (h : startsLength line=true) :
    lowerName line=lengthName.map asciiLower ∧ line.drop lengthNeedle.length=fieldValue line := by
  have hneedle : lengthNeedle=lengthName.map asciiLower++[colonByte] := by decide
  rw [startsLength,List.isPrefixOf_iff_prefix,List.prefix_iff_eq_take,← List.map_take] at h
  have hmap : (line.take lengthNeedle.length).map asciiLower=lengthName.map asciiLower++[colonByte] := by
    rw [← h]
    exact hneedle
  obtain ⟨name,last,htake,hname,hlast⟩ := List.map_eq_append_iff.mp hmap
  obtain ⟨c,rfl,hc⟩ := List.map_eq_singleton_iff.mp hlast
  have hcolon : c=colonByte := by
    rw [asciiLower] at hc
    by_cases hupper : 0x41 ≤ c ∧ c ≤ 0x5a
    · rw [if_pos hupper] at hc
      have hlo : 0x41 ≤ c.toNat := hupper.1
      have hhi : c.toNat ≤ 0x5a := hupper.2
      have hnat := congrArg UInt8.toNat hc
      rw [UInt8.toNat_add] at hnat
      have h20 : (0x20 : UInt8).toNat=0x20 := rfl
      have h3a : colonByte.toNat=0x3a := rfl
      omega
    · rw [if_neg hupper] at hc
      exact hc
  have hno : colonByte∉name := by
    intro hm
    have hmem : asciiLower colonByte∈lengthName.map asciiLower := by
      rw [← hname]
      exact List.mem_map_of_mem hm
    exact absurd hmem (by decide)
  have hline : line=name++(colonByte::line.drop lengthNeedle.length) := by
    conv_lhs => rw [← List.take_append_drop lengthNeedle.length line,htake,hcolon]
    simp
  have hall : ∀b∈name,decide (b≠colonByte)=true := by
    intro b hb
    rw [decide_eq_true_iff]
    intro he
    exact hno (by rw [← he]; exact hb)
  constructor
  · have hfield : fieldName line=name := by
      rw [fieldName,hline,List.takeWhile_append_of_pos hall,List.takeWhile_cons_of_neg (by simp),List.append_nil]
    rw [lowerName,hfield,hname]
  · have hvalue : fieldValue line=line.drop lengthNeedle.length := by
      rw [fieldValue]
      conv_lhs => rw [hline]
      rw [List.dropWhile_append_of_pos hall,List.dropWhile_cons_of_neg (by simp)]
      rfl
    exact hvalue.symm

theorem startsLength_line {line : Bytes} {r : RequestLine} (h : LineOk line r) : startsLength line=false := by
  obtain ⟨name,hname,hline,_⟩ := h.parts
  rw [hline]
  rcases hname with he | he
  · rw [he]
    rfl
  · rw [he]
    rfl

/-- On a tidy head the two readers agree. -/
theorem legible_tidy (h : parse buf=.ok req) (ht : Tidy buf) : Legible buf := by
  obtain ⟨first,r,hfirst,hlines⟩ := head_lines h
  have htidy : ∀l∈splitCrlf (headOf buf),lf∉l := by
    intro l hl
    rw [hlines] at hl
    cases List.mem_cons.mp hl with
    | inl he =>
      rw [he]
      exact hfirst.breaks.2
    | inr hf => exact ht.breaks l hf
  refine ⟨ht.text,?_⟩
  intro l hl
  have hstarts := List.find?_some hl
  have hmem := List.mem_of_find?_eq_some hl
  rw [wholeHead,textLines_tidy htidy,hlines,List.mem_append,List.mem_cons,List.mem_singleton] at hmem
  obtain ⟨hname,hvalue⟩ := startsLength_field hstarts
  rcases hmem with (he | hf) | he
  · rw [he,startsLength_line hfirst] at hstarts
    cases hstarts
  · rw [hvalue,spelledLength_eq h]
    exact (accepted_field h hf).2 (ht.spelled l hf hname)
  · rw [he] at hstarts
    exact absurd hstarts (by decide)

end Agreement

def oneByteField : Bytes := ascii "X: "++[0xff]
def secondField : Bytes := ascii "content-length: 1\r\nContent-Length: 5"
def hiddenField : Bytes := ascii "X: 5\nContent-Length: 7"

theorem readersAgree_sample : parse (oneField (ascii "Content-Length: 5"))=.ok ⟨.Get,4,6,none,5,38⟩ ∧
    (Agrees (oneField (ascii "Content-Length: 5")) ⟨.Get,4,6,none,5,38⟩ ↔
      Legible (oneField (ascii "Content-Length: 5"))) :=
  ⟨by decide +kernel,readersAgree_iff _ _ (by decide +kernel)⟩

/-- A length in small letters, one before the length that the parser reads, one behind a
bare line feed, and a byte that is no text: the parser accepts, and the other reader reads
something else or nothing. -/
theorem readers_disagree :
    (parse (oneField lowerField)=.ok ⟨.Get,4,6,none,0,38⟩ ∧
      parseContentLength ((oneField lowerField).take 38)=.ok (some 5) ∧
      ¬Agrees (oneField lowerField) ⟨.Get,4,6,none,0,38⟩) ∧
    (parse (oneField secondField)=.ok ⟨.Get,4,6,none,5,57⟩ ∧
      parseContentLength ((oneField secondField).take 57)=.ok (some 1) ∧
      ¬Agrees (oneField secondField) ⟨.Get,4,6,none,5,57⟩) ∧
    (parse (oneField hiddenField)=.ok ⟨.Get,4,6,none,0,43⟩ ∧
      parseContentLength ((oneField hiddenField).take 43)=.ok (some 7) ∧
      ¬Agrees (oneField hiddenField) ⟨.Get,4,6,none,0,43⟩) ∧
    (parse (oneField oneByteField)=.ok ⟨.Get,4,6,none,0,25⟩ ∧
      parseContentLength ((oneField oneByteField).take 25)=.error .InvalidUtf8 ∧
      ¬Agrees (oneField oneByteField) ⟨.Get,4,6,none,0,25⟩) := by
  have hlower : parseContentLength ((oneField lowerField).take 38)=.ok (some 5) := by decide +kernel
  have hsecond : parseContentLength ((oneField secondField).take 57)=.ok (some 1) := by decide +kernel
  have hhidden : parseContentLength ((oneField hiddenField).take 43)=.ok (some 7) := by decide +kernel
  have hbyte : parseContentLength ((oneField oneByteField).take 25)=.error .InvalidUtf8 := by decide +kernel
  refine ⟨⟨by decide +kernel,hlower,?_⟩,⟨by decide +kernel,hsecond,?_⟩,⟨by decide +kernel,hhidden,?_⟩,
    ⟨by decide +kernel,hbyte,?_⟩⟩
  · rw [Agrees,hlower]
    simp
  · rw [Agrees,hsecond]
    simp
  · rw [Agrees,hhidden]
    simp
  · rw [Agrees,hbyte]
    simp

end Bolina.Control
