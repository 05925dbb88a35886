import Bolina.Control.HeadLines
import Mathlib.Data.List.TakeWhile

namespace Bolina.Control

open ListSearch Utf8

def isDigitByte (b : UInt8) : Bool := decide (0x30 ≤ b) && decide (b ≤ 0x39)

def digitsValue (text : Bytes) : Nat := text.foldl (fun n b => 10*n+(b.toNat-0x30)) 0

/-- Decimal digits and nothing else, for this number. -/
structure Denotes (text : Bytes) (n : Nat) : Prop where
  nonempty : text≠[]
  digits : ∀b∈text,isDigitByte b=true
  value : digitsValue text=n

/-- A blank or a digit. -/
def isPlain (b : UInt8) : Bool := isOws b || isDigitByte b

/-- Neither a blank nor a control. -/
def isVisible (b : UInt8) : Bool := decide (0x20 < b) && decide (b≠0x7f)

/-- The name in lower case. -/
def lowerName (field : Bytes) : Bytes := (fieldName field).map asciiLower

/-- What the guards owe to an accepted request. -/
structure Guarded (buf : Bytes) (contentLength : Nat) : Prop where
  coding : ∀f∈fieldLines buf,lowerName f≠codingName.map asciiLower
  lengths : ∀f∈fieldLines buf,lowerName f=lengthName.map asciiLower → Denotes (trimOws (fieldValue f)) contentLength
  names : ∀f∈fieldLines buf,fieldName f≠[] ∧ ∀b∈fieldName f,isVisible b=true
  fold : ∀f∈fieldLines buf,f.head?≠some sp ∧ f.head?≠some htab
  breaks : ∀line∈splitCrlf (headOf buf),cr∉line ∧ lf∉line

/-- A field that the guards see through: its name is visible and no part of it breaks the
line, the two names they look for are spelled as they look for them, and a length is
digits among blanks; a length in another spelling is the one that they read or none. -/
structure Spelled (buf field : Bytes) : Prop where
  name : fieldName field≠[] ∧ ∀b∈fieldName field,isVisible b=true
  breaks : cr∉field ∧ lf∉field
  coding : lowerName field=codingName.map asciiLower → fieldName field=codingName
  plain : fieldName field=lengthName → ∀b∈fieldValue field,isPlain b=true
  other : lowerName field=lengthName.map asciiLower → fieldName field≠lengthName →
    Denotes (trimOws (fieldValue field)) ((spelledLength buf).getD 0)

section Numbers

variable {text : Bytes} {b : UInt8} {n v : Nat}

theorem isDigitByte_iff (b : UInt8) : isDigitByte b=true ↔ 0x30 ≤ b.toNat ∧ b.toNat ≤ 0x39 := by
  rw [isDigitByte,Bool.and_eq_true,decide_eq_true_iff,decide_eq_true_iff]
  exact Iff.rfl

theorem isOws_iff (b : UInt8) : isOws b=true ↔ b.toNat=0x20 ∨ b.toNat=9 := by
  rw [isOws,Bool.or_eq_true,beq_iff_eq,beq_iff_eq,← UInt8.toNat_inj,← UInt8.toNat_inj]
  exact Iff.rfl

theorem isPlain_iff (b : UInt8) : isPlain b=true ↔ (b.toNat=0x20 ∨ b.toNat=9) ∨ (0x30 ≤ b.toNat ∧ b.toNat ≤ 0x39) := by
  rw [isPlain,Bool.or_eq_true,isOws_iff,isDigitByte_iff]

theorem isPlain_lt (h : isPlain b=true) : b < 0x80 := by
  rw [isPlain_iff] at h
  have hlt : b.toNat < 0x80 := by omega
  exact hlt

theorem digitValue_byte (h : isPlain b=true) :
    digitValue (Char.ofNat b.toNat)=if isDigitByte b=true then some (b.toNat-0x30) else none := by
  rw [digitValue,ofNat_toNat b (isPlain_lt h)]
  simp only [isDigitByte_iff]

/-- Among blanks and digits the blanks are what Unicode takes for white space. -/
theorem isWhitespace_byte (h : isPlain b=true) : isWhitespace (Char.ofNat b.toNat)=isOws b := by
  rw [Bool.eq_iff_iff,isOws_iff,isWhitespace,ofNat_toNat b (isPlain_lt h),decide_eq_true_iff]
  rw [isPlain_iff] at h
  omega

theorem ne_plus (h : isPlain b=true) : Char.ofNat b.toNat≠ '+' := by
  intro he
  have hnat := congrArg Char.toNat he
  rw [ofNat_toNat b (isPlain_lt h)] at hnat
  rw [isPlain_iff] at h
  have hplus : ('+').toNat=0x2b := rfl
  omega

theorem trimStart_plain (h : ∀b∈text,isPlain b=true) :
    trimStart (asciiText text)=asciiText (text.dropWhile isOws) := by
  induction text with
  | nil => rfl
  | cons b text ih =>
    obtain ⟨hb,htext⟩ := List.forall_mem_cons.mp h
    have hcons : asciiText (b::text)=Char.ofNat b.toNat::asciiText text := rfl
    have hwhite := isWhitespace_byte hb
    rw [hcons,trimStart]
    cases hows : isOws b with
    | true =>
      rw [hows] at hwhite
      rw [List.dropWhile_cons_of_pos hwhite,List.dropWhile_cons_of_pos hows]
      exact ih htext
    | false =>
      rw [hows] at hwhite
      rw [List.dropWhile_cons_of_neg (by rw [hwhite]; decide),List.dropWhile_cons_of_neg (by rw [hows]; decide)]
      exact hcons.symm

theorem asciiText_reverse (text : Bytes) : (asciiText text).reverse=asciiText text.reverse := List.map_reverse.symm

theorem trim_plain (h : ∀b∈text,isPlain b=true) : trim (asciiText text)=asciiText (trimOws text) := by
  have hback : ∀b∈(text.dropWhile isOws).reverse,isPlain b=true := by
    intro b hb
    rw [List.mem_reverse] at hb
    exact h b ((List.dropWhile_sublist isOws).subset hb)
  rw [trim,trimStart_plain h,asciiText_reverse,trimStart_plain hback,asciiText_reverse,trimOws]

theorem mem_trimOws_of_mem (hb : b∈trimOws text) : b∈text := by
  rw [trimOws,List.mem_reverse] at hb
  have hmid := (List.dropWhile_sublist isOws).subset hb
  rw [List.mem_reverse] at hmid
  exact (List.dropWhile_sublist isOws).subset hmid

/-- What trimming takes away is blank. -/
theorem mem_trimOws (hb : b∈text) : b∈trimOws text ∨ isOws b=true := by
  rw [← List.takeWhile_append_dropWhile (p := isOws) (l := text),List.mem_append] at hb
  cases hb with
  | inl hfront => exact .inr (List.mem_takeWhile_imp hfront)
  | inr hrest =>
    rw [← List.mem_reverse,← List.takeWhile_append_dropWhile (p := isOws) (l := (text.dropWhile isOws).reverse),
      List.mem_append] at hrest
    cases hrest with
    | inl hback => exact .inr (List.mem_takeWhile_imp hback)
    | inr hmid => exact .inl (List.mem_reverse.mpr hmid)

/-- The loop over digits and blanks comes to a number when all are digits. -/
theorem foldl_plain (h : ∀b∈text,isPlain b=true) (hv : (asciiText text).foldl
    (fun n c => n.bind (fun n => (digitValue c).map (fun d => 10*n+d))) (some n)=some v) :
    (∀b∈text,isDigitByte b=true) ∧ text.foldl (fun n b => 10*n+(b.toNat-0x30)) n=v := by
  induction text generalizing n with
  | nil => exact ⟨by simp,Option.some.inj hv⟩
  | cons b text ih =>
    obtain ⟨hb,htext⟩ := List.forall_mem_cons.mp h
    have hcons : asciiText (b::text)=Char.ofNat b.toNat::asciiText text := rfl
    rw [hcons,List.foldl_cons,Option.bind_some,digitValue_byte hb] at hv
    by_cases hd : isDigitByte b=true
    · rw [if_pos hd] at hv
      obtain ⟨hdigits,hvalue⟩ := ih htext hv
      exact ⟨List.forall_mem_cons.mpr ⟨hd,hdigits⟩,hvalue⟩
    · rw [if_neg hd,Option.map_none,foldl_digits_none] at hv
      cases hv

/-- A number among blanks: its text is digits. -/
theorem textNumber_plain (h : ∀b∈text,isPlain b=true) (hv : textNumber text=some v) : Denotes (trimOws text) v := by
  have htrim : ∀b∈trimOws text,isPlain b=true := fun b hb => h b (mem_trimOws_of_mem hb)
  have hread : fromUtf8 text=some (asciiText text) := fromUtf8_ascii text (fun b hb => isPlain_lt (h b hb))
  have hsign : (stripPrefix '+' (asciiText (trimOws text))).getD (asciiText (trimOws text))=asciiText (trimOws text) := by
    cases ht : trimOws text with
    | nil => rfl
    | cons b rest =>
      have hb := ne_plus (htrim b (by rw [ht]; exact List.mem_cons_self))
      change (if Char.ofNat b.toNat= '+' then some _ else none).getD _=_
      rw [if_neg hb,Option.getD_none]
  rw [textNumber,hread,Option.bind_some,trim_plain h,parseUsize,hsign,Option.filter_eq_some_iff] at hv
  have hnumber := hv.1
  rw [parseDigits] at hnumber
  by_cases hnil : asciiText (trimOws text)=[]
  · rw [if_pos hnil] at hnumber
    cases hnumber
  · rw [if_neg hnil] at hnumber
    obtain ⟨hdigits,hvalue⟩ := foldl_plain htrim hnumber
    refine ⟨?_,hdigits,hvalue⟩
    intro he
    exact hnil (by rw [he]; rfl)

end Numbers

section Lines

variable {buf : Bytes} {req : Request}

theorem textNumber_denotes {f : Bytes} (h : parse buf=.ok req) (hf : f∈fieldLines buf) (hn : fieldName f=lengthName)
    (hv : ∀b∈fieldValue f,isPlain b=true) : Denotes (trimOws (fieldValue f)) req.contentLength :=
  textNumber_plain hv ((accepted_field h hf).2 hn)

/-- The guards see through every spelling exactly when no field is in one that they miss. -/
theorem guarded_iff (buf : Bytes) (req : Request) (h : parse buf=.ok req) :
    Guarded buf req.contentLength ↔ ∀f∈fieldLines buf,Spelled buf f := by
  obtain ⟨line,r,hline,hlines⟩ := head_lines h
  constructor
  · intro hg f hf
    constructor
    · exact hg.names f hf
    · exact hg.breaks f (by rw [hlines]; exact List.mem_cons_of_mem _ hf)
    · intro hlower
      exact absurd hlower (hg.coding f hf)
    · intro hname b hb
      have hden := hg.lengths f hf (by rw [lowerName,hname])
      rw [isPlain,Bool.or_eq_true]
      cases mem_trimOws hb with
      | inl hmid => exact .inr (hden.digits b hmid)
      | inr hows => exact .inl hows
    · intro hlower _
      rw [spelledLength_eq h]
      exact hg.lengths f hf hlower
  · intro hs
    constructor
    · intro f hf hlower
      obtain ⟨⟨r,hok⟩,_⟩ := accepted_field h hf
      exact hok.coding ((hs f hf).coding hlower)
    · intro f hf hlower
      by_cases hname : fieldName f=lengthName
      · exact textNumber_denotes h hf hname ((hs f hf).plain hname)
      · rw [← spelledLength_eq h]
        exact (hs f hf).other hlower hname
    · intro f hf
      exact (hs f hf).name
    · intro f hf
      obtain ⟨⟨r,hok⟩,_⟩ := accepted_field h hf
      exact hok.fold
    · intro l hl
      rw [hlines] at hl
      cases List.mem_cons.mp hl with
      | inl he =>
        rw [he]
        exact hline.breaks
      | inr hf => exact (hs l hf).breaks

end Lines

/-- A GET with one header field. -/
def oneField (field : Bytes) : Bytes := getLine (ascii "/x")++(crlf++(field++terminator))

def chunkedField : Bytes := ascii "transfer-encoding: chunked"
def signedField : Bytes := ascii "Content-Length: +5"
def lowerField : Bytes := ascii "content-length: 5"
def namelessField : Bytes := ascii ": 5"
def brokenField : Bytes := ascii "X: 5\nY: 5"

theorem guarded_sample : parse (oneField (ascii "Content-Length: 5"))=.ok ⟨.Get,4,6,none,5,38⟩ ∧
    (Guarded (oneField (ascii "Content-Length: 5")) 5 ↔
      ∀f∈fieldLines (oneField (ascii "Content-Length: 5")),Spelled (oneField (ascii "Content-Length: 5")) f) :=
  ⟨by decide +kernel,guarded_iff _ ⟨.Get,4,6,none,5,38⟩ (by decide +kernel)⟩

/-- A coding in small letters, a length with a sign, a length in small letters, a field
without a name and one with a bare line feed: all are accepted, and none is guarded against. -/
theorem guards_miss :
    (parse (oneField chunkedField)=.ok ⟨.Get,4,6,none,0,47⟩ ∧ ¬Guarded (oneField chunkedField) 0) ∧
    (parse (oneField signedField)=.ok ⟨.Get,4,6,none,5,39⟩ ∧ ¬Guarded (oneField signedField) 5) ∧
    (parse (oneField lowerField)=.ok ⟨.Get,4,6,none,0,38⟩ ∧ ¬Guarded (oneField lowerField) 0) ∧
    (parse (oneField namelessField)=.ok ⟨.Get,4,6,none,0,24⟩ ∧ ¬Guarded (oneField namelessField) 0) ∧
    (parse (oneField brokenField)=.ok ⟨.Get,4,6,none,0,30⟩ ∧ ¬Guarded (oneField brokenField) 0) := by
  refine ⟨⟨by decide +kernel,?_⟩,⟨by decide +kernel,?_⟩,⟨by decide +kernel,?_⟩,⟨by decide +kernel,?_⟩,
    ⟨by decide +kernel,?_⟩⟩
  · intro h
    exact h.coding chunkedField (by decide +kernel) (by decide +kernel)
  · intro h
    exact absurd ((h.lengths signedField (by decide +kernel) (by decide +kernel)).digits 0x2b (by decide +kernel))
      (by decide)
  · intro h
    exact absurd (h.lengths lowerField (by decide +kernel) (by decide +kernel)).value (by decide +kernel)
  · intro h
    exact (h.names namelessField (by decide +kernel)).1 (by decide +kernel)
  · intro h
    exact (h.breaks brokenField (by decide +kernel)).2 (by decide +kernel)

end Bolina.Control
