import Bolina.Control.AuthGate

namespace Bolina.Control

open ListSearch Utf8

/-- The header fields of a buffer; a head without any has one line, and it is empty. -/
def fieldLines (buf : Bytes) : List Bytes := (headerFields (headOf buf)).filter (fun f => f≠[])

def fieldName (field : Bytes) : Bytes := field.takeWhile (fun b => b≠colonByte)

def fieldValue (field : Bytes) : Bytes := (field.dropWhile (fun b => b≠colonByte)).drop 1

def lengthName : Bytes := ascii "Content-Length"
def codingName : Bytes := ascii "Transfer-Encoding"

/-- The number in a text, as the standard library reads it. -/
def textNumber (value : Bytes) : Option Nat := (fromUtf8 value).bind (fun s => parseUsize (trim s))

/-- The number in the first field that is spelled like the one the parser looks for. -/
def spelledLength (buf : Bytes) : Option Nat :=
  ((fieldLines buf).find? (fun f => fieldName f=lengthName)).bind (fun f => textNumber (fieldValue f))

section Split

theorem splitCrlf_ne (bs : Bytes) : splitCrlf bs≠[] := by
  induction bs using splitCrlf.induct with
  | case1 => simp [splitCrlf]
  | case2 b => simp [splitCrlf]
  | case3 b c rest h ih => simp [splitCrlf,h]
  | case4 b c rest h hnil ih => simp [splitCrlf,h,hnil]
  | case5 b c rest h line lines hcons ih => simp [splitCrlf,h,hcons]

theorem splitCrlf_crlf (rest : Bytes) : splitCrlf (cr::lf::rest)=[]::splitCrlf rest := by
  rw [splitCrlf,if_pos ⟨rfl,rfl⟩]

theorem findSub_crlf_cons {b c : UInt8} {rest : Bytes} (h : ¬(b=cr ∧ c=lf)) :
    findSub crlf (b::c::rest)=(findSub crlf (c::rest)).map (·+1) := by
  have hp : ¬crlf.isPrefixOf (b::c::rest)=true := by
    rw [List.isPrefixOf_iff_prefix,crlf,List.cons_prefix_cons,List.cons_prefix_cons]
    intro hp
    exact h ⟨hp.1.symm,hp.2.1.symm⟩
  rw [findSub,if_neg hp]

/-- The first line ends at the first CRLF. -/
theorem splitCrlf_first (bs : Bytes) : splitCrlf bs=
    match findSub crlf bs with
    | none => [bs]
    | some i => bs.take i::splitCrlf (bs.drop (i+2)) := by
  induction bs using splitCrlf.induct with
  | case1 => rfl
  | case2 b =>
    have hnone : findSub crlf [b]=none := by
      rw [findSub_eq_none]
      intro i hp
      have hl := hp.length_le
      rw [List.length_drop] at hl
      simp [crlf] at hl
      omega
    rw [hnone]
    rfl
  | case3 b c rest h ih =>
    obtain ⟨rfl,rfl⟩ := h
    have hfirst : findSub crlf (cr::lf::rest)=some 0 := by
      have hp : crlf.isPrefixOf (cr::lf::rest)=true := List.isPrefixOf_iff_prefix.mpr (List.prefix_append crlf rest)
      rw [findSub,if_pos hp]
    rw [splitCrlf_crlf,hfirst]
    rfl
  | case4 b c rest h hnil ih => exact absurd hnil (splitCrlf_ne _)
  | case5 b c rest h line lines hcons ih =>
    rw [findSub_crlf_cons h,splitCrlf,if_neg h,hcons]
    rw [hcons] at ih
    cases hf : findSub crlf (c::rest) with
    | none =>
      rw [hf] at ih
      obtain ⟨rfl,rfl⟩ := List.cons.inj ih
      rfl
    | some i =>
      rw [hf] at ih
      obtain ⟨rfl,rfl⟩ := List.cons.inj ih
      rfl

/-- An empty first line is an empty text, or a CRLF is at its front. -/
theorem splitCrlf_head {bs : Bytes} {lines : List Bytes} (h : splitCrlf bs=[]::lines) : bs=[] ∨ crlf <+: bs := by
  rw [splitCrlf_first] at h
  cases hf : findSub crlf bs with
  | none =>
    rw [hf] at h
    exact .inl (List.cons.inj h).1
  | some i =>
    rw [hf] at h
    have htake := (List.cons.inj h).1
    have hat := (findSub_some hf).1
    cases List.take_eq_nil_iff.mp htake with
    | inl hi =>
      rw [hi] at hat
      exact .inr hat
    | inr hnil => exact .inl hnil

/-- An empty line behind the first one has a CRLF on both sides. -/
theorem splitCrlf_tail {bs line : Bytes} {lines : List Bytes} (h : splitCrlf bs=line::lines) (hmem : []∈lines) :
    ∃a b,bs++crlf=a++(terminator++b) := by
  induction bs using splitCrlf.induct generalizing line lines with
  | case1 =>
    rw [splitCrlf] at h
    rw [← (List.cons.inj h).2] at hmem
    cases hmem
  | case2 b =>
    rw [splitCrlf] at h
    rw [← (List.cons.inj h).2] at hmem
    cases hmem
  | case3 b c rest hc ih =>
    obtain ⟨rfl,rfl⟩ := hc
    rw [splitCrlf_crlf] at h
    rw [← (List.cons.inj h).2] at hmem
    obtain ⟨first,more,hs⟩ := List.exists_cons_of_ne_nil (splitCrlf_ne rest)
    rw [hs] at hmem
    cases List.mem_cons.mp hmem with
    | inl hfirst =>
      rw [← hfirst] at hs
      cases splitCrlf_head hs with
      | inl hnil =>
        rw [hnil]
        exact ⟨[],[],rfl⟩
      | inr hp =>
        obtain ⟨b,hb⟩ := hp
        rw [← hb]
        exact ⟨[],b++crlf,rfl⟩
    | inr hmore =>
      obtain ⟨a,b,hab⟩ := ih hs hmore
      refine ⟨cr::lf::a,b,?_⟩
      rw [List.cons_append,List.cons_append,hab]
      rfl
  | case4 b c rest hc hnil ih => exact absurd hnil (splitCrlf_ne _)
  | case5 b c rest hc first more hs ih =>
    rw [splitCrlf,if_neg hc,hs] at h
    rw [← (List.cons.inj h).2] at hmem
    obtain ⟨a,b',hab⟩ := ih hs hmem
    refine ⟨b::a,b',?_⟩
    rw [List.cons_append,hab]
    rfl

end Split

section Head

variable {buf : Bytes} {headEnd : Nat}

/-- No terminator starts before the end of the head. -/
theorem no_terminator (h : findSub terminator buf=some headEnd) {a b : Bytes}
    (hab : headOf buf++terminator=a++(terminator++b)) : headEnd ≤ a.length := by
  by_contra hlt
  obtain ⟨hat,hmin⟩ := findSub_some h
  have hle : headEnd+terminator.length ≤ buf.length := findSub_le h
  have hbuf : buf=(headOf buf++terminator)++buf.drop (headEnd+terminator.length) := by
    rw [headOf_eq h,List.append_assoc]
    exact findSub_split h
  apply hmin a.length (by omega)
  rw [hbuf,hab,List.append_assoc,List.drop_left,List.append_assoc]
  exact List.prefix_append _ _

theorem headerFields_none {head : Bytes} (h : findSub crlf head=none) : headerFields head=[[]] := by
  rw [headerFields,lineEnd,h,Option.getD_none,List.drop_of_length_le (Nat.le_add_right _ 2)]
  rfl

/-- A head that ends has no empty line among its fields. -/
theorem headerFields_ne (h : findSub terminator buf=some headEnd) (hc : findSub crlf (headOf buf)≠none) :
    ∀f∈headerFields (headOf buf),f≠[] := by
  have hlen := headOf_length h
  rw [headerFields]
  cases hf : findSub crlf (headOf buf) with
  | none => exact absurd hf hc
  | some i =>
    rw [lineEnd,hf,Option.getD_some]
    have hi : i+crlf.length ≤ (headOf buf).length := findSub_le hf
    have htwo : crlf.length=2 := rfl
    -- the head as its request line, a CRLF and the fields
    have hhead : headOf buf=(headOf buf).take i++(crlf++(headOf buf).drop (i+2)) := findSub_split hf
    obtain ⟨line,lines,hs⟩ := List.exists_cons_of_ne_nil (splitCrlf_ne ((headOf buf).drop (i+2)))
    intro f hmem he
    rw [hs,he] at hmem
    cases List.mem_cons.mp hmem with
    | inl hfirst =>
      rw [← hfirst] at hs
      have hshort : i=((headOf buf).take i).length := by
        rw [List.length_take]
        omega
      cases splitCrlf_head hs with
      | inl hnil =>
        have hle := no_terminator h (a := (headOf buf).take i) (b := crlf) (by
          conv_lhs => rw [hhead,hnil]
          rw [List.append_nil,List.append_assoc]
          rfl)
        omega
      | inr hp =>
        obtain ⟨rest,hrest⟩ := hp
        have hle := no_terminator h (a := (headOf buf).take i) (b := rest++terminator) (by
          conv_lhs => rw [hhead,← hrest]
          simp only [List.append_assoc]
          rfl)
        omega
    | inr hmore =>
      obtain ⟨a,b,hab⟩ := splitCrlf_tail hs hmore
      have hlong := congrArg List.length hab
      rw [List.length_append,List.length_append,List.length_append,List.length_drop] at hlong
      have hle := no_terminator h (a := (headOf buf).take i++(crlf++a)) (b := b++crlf) (by
        conv_lhs => rw [hhead]
        have hterm : terminator=crlf++crlf := rfl
        have hmove : (headOf buf).drop (i+2)++terminator=a++(terminator++(b++crlf)) := by
          rw [hterm,← List.append_assoc,hab,← hterm]
          simp only [List.append_assoc]
        simp only [List.append_assoc]
        rw [hmove])
      rw [List.length_append,List.length_append,List.length_take] at hle
      have hfour : terminator.length=4 := rfl
      omega

/-- The lines of a head: the request line, and the fields. -/
theorem headOf_split (h : findSub terminator buf=some headEnd) :
    splitCrlf (headOf buf)=(headOf buf).take (lineEnd (headOf buf))::fieldLines buf := by
  rw [splitCrlf_first,fieldLines]
  cases hc : findSub crlf (headOf buf) with
  | none =>
    rw [headerFields_none hc,lineEnd,hc,Option.getD_none,List.take_length]
    rfl
  | some i =>
    have hall : (headerFields (headOf buf)).filter (fun f => f≠[])=headerFields (headOf buf) := by
      rw [List.filter_eq_self]
      intro f hf
      simpa using headerFields_ne h (by rw [hc]; simp) f hf
    rw [hall,headerFields,lineEnd,hc,Option.getD_some]

theorem fieldLines_fields (h : findSub terminator buf=some headEnd) (acc : Option Nat) :
    parseFields (headerFields (headOf buf)) acc=parseFields (fieldLines buf) acc := by
  by_cases hc : findSub crlf (headOf buf)=none
  · rw [fieldLines,headerFields_none hc]
    rfl
  · rw [fieldLines,List.filter_eq_self.mpr]
    intro f hf
    simpa using headerFields_ne h hc f hf

theorem fieldLines_ne {f : Bytes} (h : f∈fieldLines buf) : f≠[] := by
  simpa using (List.mem_filter.mp h).2

end Head

/-- A request line that is accepted, in its five parts. -/
structure LineOk (line : Bytes) (r : RequestLine) : Prop where
  parts : ∃name,(name=ascii "GET" ∨ name=ascii "POST") ∧ line=name++sp::(r.target++sp::http11) ∧
    r.targetStart=name.length+1
  visible : ∀b∈r.target,¬b < 0x21

theorem parseLine_ok {line : Bytes} {r : RequestLine} (h : parseLine line=.ok r) : LineOk line r := by
  rw [parseLine] at h
  cases hsp1 : line.idxOf? sp with
  | none =>
    rw [hsp1] at h
    cases h
  | some sp1 =>
    rw [hsp1] at h
    dsimp only at h
    by_cases hcount : line.count sp≠2
    · rw [if_pos hcount] at h
      cases h
    · rw [if_neg hcount] at h
      cases hsp2 : (line.drop (sp1+1)).idxOf? sp with
      | none =>
        rw [hsp2] at h
        cases h
      | some sp2 =>
        rw [hsp2] at h
        dsimp only at h
        by_cases hversion : (line.drop (sp1+1)).drop (sp2+1)≠http11
        · rw [if_pos hversion] at h
          cases h
        · rw [if_neg hversion] at h
          cases hm : methodOf (line.take sp1) with
          | none =>
            rw [hm] at h
            cases h
          | some method =>
            rw [hm] at h
            dsimp only at h
            by_cases hctl : ((line.drop (sp1+1)).take sp2).any (fun b => decide (b < 0x21))=true
            · rw [if_pos hctl] at h
              cases h
            · rw [if_neg hctl] at h
              cases h
              have hname : line.take sp1=ascii "GET" ∨ line.take sp1=ascii "POST" := by
                rw [methodOf] at hm
                split_ifs at hm with hget hpost
                · exact .inl hget
                · exact .inr hpost
              have hrest := idxOf?_split hsp2
              rw [not_not.mp hversion] at hrest
              have hlt := (List.idxOf?_eq_some_iff.mp hsp1).1
              refine ⟨⟨line.take sp1,hname,?_,?_⟩,?_⟩
              · rw [← hrest]
                exact idxOf?_split hsp1
              · rw [List.length_take]
                dsimp only
                omega
              · intro b hb hlow
                exact hctl (List.any_eq_true.mpr ⟨b,hb,by simpa using hlow⟩)

/-- No control and no blank but the two of the grammar. -/
theorem LineOk.mem {line : Bytes} {r : RequestLine} (h : LineOk line r) {b : UInt8} (hb : b∈line) :
    b=sp ∨ ¬b < 0x21 := by
  obtain ⟨name,hname,hline,_⟩ := h.parts
  have hget : ∀b∈ascii "GET",¬b < 0x21 := by decide +kernel
  have hpost : ∀b∈ascii "POST",¬b < 0x21 := by decide +kernel
  have hver : ∀b∈http11,¬b < 0x21 := by decide +kernel
  rw [hline,List.mem_append,List.mem_cons,List.mem_append,List.mem_cons] at hb
  rcases hb with hb | hb | hb | hb | hb
  · rcases hname with he | he
    · rw [he] at hb
      exact .inr (hget b hb)
    · rw [he] at hb
      exact .inr (hpost b hb)
  · exact .inl hb
  · exact .inr (h.visible b hb)
  · exact .inl hb
  · exact .inr (hver b hb)

/-- The target and a blank with the version behind it are within the line. -/
theorem LineOk.fits {line : Bytes} {r : RequestLine} (h : LineOk line r) :
    r.targetStart+r.target.length+9=line.length := by
  obtain ⟨name,_,hline,hstart⟩ := h.parts
  have hver : http11.length=8 := by decide
  rw [hline,hstart]
  simp only [List.length_append,List.length_cons,hver]
  omega

theorem LineOk.breaks {line : Bytes} {r : RequestLine} (h : LineOk line r) : cr∉line ∧ lf∉line := by
  constructor
  · intro hm
    exact absurd (h.mem hm) (by decide)
  · intro hm
    exact absurd (h.mem hm) (by decide)

/-- What a field has passed. -/
structure FieldOk (f : Bytes) (r : Option Nat) : Prop where
  fold : f.head?≠some sp ∧ f.head?≠some htab
  colon : colonByte∈f
  coding : fieldName f≠codingName
  length : fieldName f=lengthName → ∃v,r=some v ∧ textNumber (fieldValue f)=some v
  other : fieldName f≠lengthName → r=none

section Fields

variable {f : Bytes} {r acc declared : Option Nat} {lines : List Bytes}

theorem parseField_ok (h : parseField f=.ok r) : FieldOk f r := by
  rw [parseField] at h
  by_cases hfold : f.head?=some sp ∨ f.head?=some htab
  · rw [if_pos hfold] at h
    cases h
  · rw [if_neg hfold] at h
    cases hc : f.idxOf? colonByte with
    | none =>
      rw [hc] at h
      cases h
    | some colon =>
      rw [hc] at h
      dsimp only at h
      obtain ⟨hmem,htake,hdrop⟩ := idxOf?_cut hc
      have hname : f.take colon=fieldName f := htake
      have hvalue : f.drop (colon+1)=fieldValue f := by
        rw [← List.drop_drop,hdrop]
        rfl
      rw [hname,hvalue,← lengthName,← codingName] at h
      by_cases hspace : 0 < colon ∧ f[colon-1]?=some sp
      · rw [if_pos hspace] at h
        cases h
      · rw [if_neg hspace] at h
        by_cases hlength : fieldName f=lengthName
        · rw [if_pos hlength] at h
          have hcoding : fieldName f≠codingName := by
            rw [hlength]
            decide
          cases hv : textNumber (fieldValue f) with
          | none =>
            rw [textNumber] at hv
            rw [hv] at h
            cases h
          | some v =>
            have hnumber := hv
            rw [textNumber] at hv
            rw [hv] at h
            cases h
            exact ⟨not_or.mp hfold,hmem,hcoding,fun _ => ⟨v,rfl,hnumber⟩,fun hne => absurd hlength hne⟩
        · rw [if_neg hlength] at h
          by_cases hcoding : fieldName f=codingName
          · rw [if_pos hcoding] at h
            cases h
          · rw [if_neg hcoding] at h
            cases h
            exact ⟨not_or.mp hfold,hmem,hcoding,fun he => absurd he hlength,fun _ => rfl⟩

/-- The loop: every field passes, and those that declare a length declare the same. -/
theorem parseFields_ok (hne : ∀f∈lines,f≠[]) (h : parseFields lines acc=.ok declared) :
    (∀f∈lines,∃r,parseField f=.ok r ∧ ∀v,r=some v → declared=some v) ∧ (∀v,acc=some v → declared=some v) ∧
      ((∀f∈lines,parseField f=.ok none) → declared=acc) := by
  induction lines generalizing acc with
  | nil =>
    cases h
    exact ⟨by simp,fun _ hv => hv,fun _ => rfl⟩
  | cons f lines ih =>
    have hrest : ∀f∈lines,f≠[] := fun x hx => hne x (List.mem_cons_of_mem f hx)
    rw [parseFields,if_neg (hne f List.mem_cons_self)] at h
    cases hf : parseField f with
    | error e =>
      rw [hf] at h
      cases h
    | ok r =>
      rw [hf] at h
      cases r with
      | none =>
        obtain ⟨hall,hkeep,hquiet⟩ := ih hrest h
        refine ⟨List.forall_mem_cons.mpr ⟨⟨none,hf,by simp⟩,hall⟩,hkeep,?_⟩
        intro hnone
        exact hquiet (fun x hx => hnone x (List.mem_cons_of_mem f hx))
      | some v =>
        -- the length is the first one, or the one there is
        have hnext : parseFields lines (some v)=.ok declared ∧ ∀w,acc=some w → w=v := by
          cases acc with
          | none => exact ⟨h,by simp⟩
          | some prev =>
            dsimp only at h
            by_cases hprev : prev=v
            · rw [if_neg (not_not.mpr hprev)] at h
              exact ⟨h,fun w hw => by rw [← hprev]; exact (Option.some.inj hw).symm⟩
            · rw [if_pos hprev] at h
              cases h
        obtain ⟨hall,hkeep,_⟩ := ih hrest hnext.1
        have hv : declared=some v := hkeep v rfl
        refine ⟨List.forall_mem_cons.mpr ⟨⟨some v,hf,?_⟩,hall⟩,?_,?_⟩
        · intro w hw
          rw [hv,← Option.some.inj hw]
        · intro w hw
          rw [hv,hnext.2 w hw]
        · intro hnone
          have hbad := hnone f List.mem_cons_self
          rw [hf] at hbad
          cases hbad

end Fields

section Accepted

variable {buf f : Bytes} {req : Request}

/-- The lines of an accepted head: its request line, and the fields. -/
theorem head_lines (h : parse buf=.ok req) :
    ∃line r,LineOk line r ∧ splitCrlf (headOf buf)=line::fieldLines buf := by
  obtain ⟨headEnd,line,declared,hp⟩ := parse_ok h
  have hlined := hp.lined
  rw [← headOf_eq hp.ends] at hlined
  exact ⟨_,line,parseLine_ok hlined,headOf_split hp.ends⟩

/-- The fields of an accepted request, and the length they declare. -/
theorem parse_fields (h : parse buf=.ok req) :
    ∃declared,parseFields (fieldLines buf) none=.ok declared ∧ req.contentLength=declared.getD 0 := by
  obtain ⟨headEnd,line,declared,hp⟩ := parse_ok h
  refine ⟨declared,?_,by rw [hp.eq]⟩
  have hfields := hp.fields
  rw [← headOf_eq hp.ends] at hfields
  rw [← fieldLines_fields hp.ends]
  exact hfields

/-- A field of an accepted request; one that is spelled so declares its length. -/
theorem accepted_field (h : parse buf=.ok req) (hf : f∈fieldLines buf) :
    (∃r,FieldOk f r) ∧ (fieldName f=lengthName → textNumber (fieldValue f)=some req.contentLength) := by
  obtain ⟨declared,hfields,hlen⟩ := parse_fields h
  obtain ⟨hall,_,_⟩ := parseFields_ok (fun _ hx => fieldLines_ne hx) hfields
  obtain ⟨r,hr,hv⟩ := hall f hf
  have hok := parseField_ok hr
  refine ⟨⟨r,hok⟩,?_⟩
  intro hname
  obtain ⟨v,hrv,hnumber⟩ := hok.length hname
  rw [hnumber,hlen,hv v hrv]
  rfl

theorem accepted_undeclared (h : parse buf=.ok req) (hno : ∀f∈fieldLines buf,fieldName f≠lengthName) :
    req.contentLength=0 := by
  obtain ⟨declared,hfields,hlen⟩ := parse_fields h
  obtain ⟨hall,_,hquiet⟩ := parseFields_ok (fun _ hx => fieldLines_ne hx) hfields
  have hnone : declared=none := by
    apply hquiet
    intro f hf
    obtain ⟨r,hr,_⟩ := hall f hf
    rw [hr,(parseField_ok hr).other (hno f hf)]
  rw [hlen,hnone]
  rfl

/-- The length that the parser reads is the one of the first field that is spelled so. -/
theorem spelledLength_eq (h : parse buf=.ok req) : (spelledLength buf).getD 0=req.contentLength := by
  rw [spelledLength]
  cases hf : (fieldLines buf).find? (fun f => fieldName f=lengthName) with
  | none =>
    rw [List.find?_eq_none] at hf
    have hno : ∀f∈fieldLines buf,fieldName f≠lengthName := by
      intro f hmem
      simpa using hf f hmem
    rw [accepted_undeclared h hno]
    rfl
  | some f =>
    have hname : fieldName f=lengthName := by simpa using List.find?_some hf
    rw [Option.bind_some,(accepted_field h (List.mem_of_find?_eq_some hf)).2 hname]
    rfl

end Accepted

end Bolina.Control
