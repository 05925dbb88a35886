import Bolina.Control.HeadLines
import Bolina.Daemon.CheckedPost

namespace Bolina.Checked

open Panic ListSearch Utf8
open Control (Bad ParseError Method Request RequestLine HttpReply RouteCtx cr lf sp htab colonByte questionMark crlf
  terminator http11 headerCap bodyCap methodOf textNumber lengthName codingName)

/-- The request line, cut at its spaces. -/
def parseLine (line : Bytes) : Option (Except Bad RequestLine) := do
  match line.idxOf? sp with
  | none => return .error .MalformedLine
  | some sp1 =>
    if line.count sp≠2 then return .error .DoubleSP
    else
      let lo ← add sp1 1
      let rest ← range line lo line.length
      match rest.idxOf? sp with
      | none => return .error .MalformedLine
      | some sp2 =>
        let hi ← add lo sp2
        let target ← range line lo hi
        let behind ← add sp2 1
        let version ← range rest behind rest.length
        if version≠http11 then return .error .BadVersion
        else
          let name ← range line 0 sp1
          match methodOf name with
          | none => return .error .BadMethod
          | some method =>
            if target.any (fun b => b < 0x21) then return .error .ControlInTarget
            else return .ok ⟨method,lo,target⟩

/-- A space stands right before the colon. -/
def spacedBefore (field : Bytes) (colon : Nat) : Option Bool :=
  if 0 < colon then do
    let before ← sub colon 1
    let last ← index field before
    return decide (last=sp)
  else some false

/-- A field that is not empty. -/
def parseField (field : Bytes) : Option (Except Bad (Option Nat)) := do
  let first ← index field 0
  if first=sp ∨ first=htab then return .error .ObsFold
  else
    match field.idxOf? colonByte with
    | none => return .error .MalformedLine
    | some colon =>
      let spaced ← spacedBefore field colon
      if spaced then return .error .SpaceBeforeColon
      else
        let name ← range field 0 colon
        let behind ← add colon 1
        let value ← range field behind field.length
        if name=lengthName then
          match textNumber value with
          | none => return .error .LengthRequired
          | some v => return .ok (some v)
        else if name=codingName then return .error .TransferEncoding
        else return .ok none

/-- The end of the field that starts at `h`, which `tail` is the rest from. -/
def fieldEnd (raw tail : Bytes) (h : Nat) : Option Nat :=
  match findSub crlf tail with
  | some i => add h i
  | none => some raw.length

/-- The loop over the fields from the offset `h` on; `none` is also a loop that is not through. -/
def fieldLoop (raw : Bytes) : Nat → Nat → Option Nat → Option (Except Bad (Option Nat))
  | 0,_,_ => none
  | fuel+1,h,contentLength =>
    if raw.length ≤ h then some (.ok contentLength)
    else do
      let tail ← range raw h raw.length
      let e ← fieldEnd raw tail h
      let field ← range raw h e
      if field=[] then return .ok contentLength
      else
        match ← parseField field with
        | .error bad => return .error bad
        | .ok none =>
          let next ← add e 2
          fieldLoop raw fuel next contentLength
        | .ok (some v) =>
          if contentLength.any (fun prev => prev≠v) then return .error .ConflictingLength
          else
            let next ← add e 2
            fieldLoop raw fuel next (some v)

/-- What is behind the request line of a head, if anything is. -/
def headersRaw (head : Bytes) (lineEnd : Nat) : Option Bytes := do
  let lo ← add lineEnd 2
  if lo ≤ head.length then range head lo head.length
  else range head head.length head.length

/-- The offset of a query, if there is one. -/
def queryOf (line : RequestLine) : Option (Option Nat) := do
  match line.target.idxOf? questionMark with
  | none => return none
  | some q =>
    let mark ← add line.targetStart q
    let queryStart ← add mark 1
    return some queryStart

/-- The offsets of an accepted request. -/
def requestOf (line : RequestLine) (contentLength headEnd : Nat) : Option Request := do
  let targetEnd ← add line.targetStart ((line.target.idxOf? questionMark).getD line.target.length)
  let queryStart ← queryOf line
  let bodyStart ← add headEnd 4
  return { method := line.method,targetStart := line.targetStart,targetEnd,queryStart,contentLength,bodyStart }

def parse (buf : Bytes) : Option (Except ParseError Request) := do
  match findSub terminator buf with
  | none => if headerCap < buf.length then return .error .HeadersTooLarge else return .error .Incomplete
  | some headEnd =>
    let head ← range buf 0 headEnd
    let lineEnd := Control.lineEnd head
    let line ← range head 0 lineEnd
    match ← parseLine line with
    | .error e => return .error (.BadRequest e)
    | .ok line =>
      let raw ← headersRaw head lineEnd
      match ← fieldLoop raw (raw.length+1) 0 none with
      | .error e => return .error (.BadRequest e)
      | .ok declared =>
        let contentLength := declared.getD 0
        if line.method=.Post ∧ contentLength=0 then return .error (.BadRequest .LengthRequired)
        else if bodyCap < contentLength then return .error .BodyTooLarge
        else
          let req ← requestOf line contentLength headEnd
          return .ok req

section Parser

variable {line field raw buf : Bytes}

theorem parseLine_eq (h : line.length < sliceLimit) : parseLine line=some (Control.parseLine line) := by
  rw [sliceLimit] at h
  have hword : wordLimit=2^64 := rfl
  rw [parseLine,Control.parseLine]
  cases hsp1 : line.idxOf? sp with
  | none => rfl
  | some sp1 =>
    have hlt1 := (List.idxOf?_eq_some_iff.mp hsp1).1
    have hlo : add sp1 1=some (sp1+1) := add_eq (by omega)
    have hrest : range line (sp1+1) line.length=some (line.drop (sp1+1)) := range_back (by omega)
    dsimp only
    by_cases hcount : line.count sp≠2
    · rw [if_pos hcount,if_pos hcount]
      rfl
    · rw [if_neg hcount,if_neg hcount,hlo]
      simp only [Option.bind_eq_bind,Option.bind_some,hrest]
      cases hsp2 : (line.drop (sp1+1)).idxOf? sp with
      | none => rfl
      | some sp2 =>
        have hlt2 := (List.idxOf?_eq_some_iff.mp hsp2).1
        rw [List.length_drop] at hlt2
        have hhi : add (sp1+1) sp2=some (sp1+1+sp2) := add_eq (by omega)
        have htarget : range line (sp1+1) (sp1+1+sp2)=some ((line.drop (sp1+1)).take sp2) := range_add (by omega)
        have hbehind : add sp2 1=some (sp2+1) := add_eq (by omega)
        have hversion : range (line.drop (sp1+1)) (sp2+1) (line.drop (sp1+1)).length=
            some ((line.drop (sp1+1)).drop (sp2+1)) := range_back (by rw [List.length_drop]; omega)
        have hname : range line 0 sp1=some (line.take sp1) := range_front (by omega)
        simp only [hhi,htarget,hbehind,hversion,hname,Option.bind_some]
        by_cases hver : (line.drop (sp1+1)).drop (sp2+1)≠http11
        · rw [if_pos hver,if_pos hver]
          rfl
        · rw [if_neg hver,if_neg hver]
          cases methodOf (line.take sp1) with
          | none => rfl
          | some method =>
            dsimp only
            split <;> rfl

theorem spacedBefore_eq {colon : Nat} (h : colon ≤ field.length) :
    spacedBefore field colon=some (decide (0 < colon ∧ field[colon-1]?=some sp)) := by
  rw [spacedBefore]
  by_cases hpos : 0 < colon
  · have hbefore : sub colon 1=some (colon-1) := sub_eq hpos
    have hin : colon-1 < field.length := by omega
    have hlast : index field (colon-1)=some field[colon-1] := index_eq hin
    have hget : field[colon-1]?=some field[colon-1] := List.getElem?_eq_getElem hin
    rw [if_pos hpos,hbefore,hget]
    simp [hlast,hpos]
  · rw [if_neg hpos]
    simp [hpos]

theorem parseField_eq (hne : field≠[]) (h : field.length < sliceLimit) :
    parseField field=some (Control.parseField field) := by
  rw [sliceLimit] at h
  have hword : wordLimit=2^64 := rfl
  obtain ⟨b,rest,rfl⟩ := List.exists_cons_of_ne_nil hne
  have hfirst : index (b::rest) 0=some b := rfl
  have hhead : ((b::rest).head?=some sp ∨ (b::rest).head?=some htab) ↔ (b=sp ∨ b=htab) := by simp
  rw [parseField,Control.parseField,hfirst]
  simp only [Option.bind_eq_bind,Option.bind_some,hhead]
  by_cases hfold : b=sp ∨ b=htab
  · rw [if_pos hfold,if_pos hfold]
    rfl
  · rw [if_neg hfold,if_neg hfold]
    cases hc : (b::rest).idxOf? colonByte with
    | none => rfl
    | some colon =>
      have hlt := (List.idxOf?_eq_some_iff.mp hc).1
      have hname : range (b::rest) 0 colon=some ((b::rest).take colon) := range_front (by omega)
      have hbehind : add colon 1=some (colon+1) := add_eq (by omega)
      have hvalue : range (b::rest) (colon+1) (b::rest).length=some ((b::rest).drop (colon+1)) := range_back (by omega)
      have hspaced := spacedBefore_eq (Nat.le_of_lt hlt)
      simp only [hspaced,Option.bind_some,hname,hbehind,hvalue,decide_eq_true_eq]
      by_cases hspace : 0 < colon ∧ (b::rest)[colon-1]?=some sp
      · rw [if_pos hspace,if_pos hspace]
        rfl
      · rw [if_neg hspace,if_neg hspace,← lengthName,← codingName]
        by_cases hlength : (b::rest).take colon=lengthName
        · rw [if_pos hlength,if_pos hlength]
          cases hv : textNumber ((b::rest).drop (colon+1)) with
          | none =>
            rw [textNumber] at hv
            rw [hv]
            rfl
          | some v =>
            rw [textNumber] at hv
            rw [hv]
            rfl
        · rw [if_neg hlength,if_neg hlength]
          split <;> rfl

/-- Where a field ends, and what is left to the loop behind it. -/
theorem field_stop (hlen : raw.length < sliceLimit) {h : Nat} (hh : h < raw.length) : ∃e lines,
    fieldEnd raw (raw.drop h) h=some (h+e) ∧ h+e ≤ raw.length ∧
      Control.splitCrlf (raw.drop h)=(raw.drop h).take e::lines ∧
      ∀acc,Control.parseFields lines acc=Control.parseFields (Control.splitCrlf (raw.drop (h+e+2))) acc := by
  rw [sliceLimit] at hlen
  have hword : wordLimit=2^64 := rfl
  rw [fieldEnd,Control.splitCrlf_first]
  cases hf : findSub crlf (raw.drop h) with
  | none =>
    have he : h+(raw.length-h)=raw.length := by omega
    refine ⟨raw.length-h,[],by rw [he],by omega,?_,?_⟩
    · rw [← List.length_drop,List.take_length]
    · intro acc
      rw [List.drop_of_length_le (by omega)]
      rfl
  | some i =>
    have hle : i+crlf.length ≤ (raw.drop h).length := findSub_le hf
    have htwo : crlf.length=2 := rfl
    rw [List.length_drop] at hle
    refine ⟨i,Control.splitCrlf ((raw.drop h).drop (i+2)),add_eq (by omega),by omega,rfl,?_⟩
    intro acc
    rw [List.drop_drop,Nat.add_assoc]

/-- A loop with fuel for all that is left goes through, and does what the recursion over the
lines does. -/
theorem fieldLoop_eq (hlen : raw.length < sliceLimit) (fuel h : Nat) (acc : Option Nat) (hpos : 0 < fuel)
    (hf : raw.length < fuel+h) :
    fieldLoop raw fuel h acc=some (Control.parseFields (Control.splitCrlf (raw.drop h)) acc) := by
  induction fuel generalizing h acc with
  | zero => omega
  | succ fuel ih =>
    rw [fieldLoop]
    by_cases hend : raw.length ≤ h
    · rw [if_pos hend,List.drop_eq_nil_iff.mpr hend]
      rfl
    · obtain ⟨e,lines,hstop,hle,hlines,hrest⟩ := field_stop hlen (Nat.lt_of_not_le hend)
      have hword : wordLimit=2*sliceLimit := rfl
      have htail : range raw h raw.length=some (raw.drop h) := range_back (by omega)
      have hfield : range raw h (h+e)=some ((raw.drop h).take e) := range_add hle
      have hnext : add (h+e) 2=some (h+e+2) := add_eq (by rw [sliceLimit] at *; omega)
      have hloop := fun acc => ih (h+e+2) acc (by omega) (by omega)
      rw [if_neg hend,hlines,Control.parseFields]
      simp only [Option.bind_eq_bind,htail,Option.bind_some,hstop,hfield]
      by_cases hempty : (raw.drop h).take e=[]
      · rw [if_pos hempty,if_pos hempty]
        rfl
      · have hshort : ((raw.drop h).take e).length < sliceLimit := by
          rw [List.length_take,List.length_drop]
          omega
        rw [if_neg hempty,if_neg hempty,parseField_eq hempty hshort,Option.bind_some]
        cases Control.parseField ((raw.drop h).take e) with
        | error bad => rfl
        | ok r =>
          cases r with
          | none =>
            dsimp only
            rw [hnext,Option.bind_some,hloop,hrest]
          | some v =>
            cases acc with
            | none =>
              dsimp only [Option.any]
              rw [if_neg (by decide),hnext,Option.bind_some,hloop,hrest]
            | some prev =>
              dsimp only [Option.any]
              by_cases hprev : prev=v
              · rw [if_neg (by simpa using hprev),if_neg (by simpa using hprev),hnext,Option.bind_some,hloop,hrest]
              · rw [if_pos (by simpa using hprev),if_pos hprev]
                rfl

theorem headersRaw_eq {head : Bytes} {lineEnd : Nat} (h : head.length < sliceLimit) (hl : lineEnd ≤ head.length) :
    headersRaw head lineEnd=some (head.drop (lineEnd+2)) := by
  rw [sliceLimit] at h
  have hword : wordLimit=2^64 := rfl
  have hlo : add lineEnd 2=some (lineEnd+2) := add_eq (by omega)
  rw [headersRaw]
  simp only [Option.bind_eq_bind,hlo,Option.bind_some]
  by_cases hin : lineEnd+2 ≤ head.length
  · rw [if_pos hin,range_back hin]
  · rw [if_neg hin,range_back le_rfl,List.drop_length,List.drop_of_length_le (by omega)]

theorem lineEnd_le (head : Bytes) : Control.lineEnd head ≤ head.length := by
  rw [Control.lineEnd]
  cases hf : findSub crlf head with
  | none => exact le_rfl
  | some i =>
    have hle := findSub_le hf
    rw [Option.getD_some]
    omega

theorem requestOf_eq {line : RequestLine} {contentLength headEnd : Nat}
    (hl : line.targetStart+line.target.length+1 < wordLimit) (he : headEnd+4 < wordLimit) :
    requestOf line contentLength headEnd=some
      { method := line.method
        targetStart := line.targetStart
        targetEnd := line.targetStart+(line.target.idxOf? questionMark).getD line.target.length
        queryStart := (line.target.idxOf? questionMark).map (fun q => line.targetStart+q+1)
        contentLength
        bodyStart := headEnd+4 } := by
  have hbody : add headEnd 4=some (headEnd+4) := add_eq he
  rw [requestOf,queryOf]
  cases hq : line.target.idxOf? questionMark with
  | none =>
    have hend : add line.targetStart line.target.length=some (line.targetStart+line.target.length) := add_eq (by omega)
    simp only [Option.bind_eq_bind,Option.getD_none,hend,Option.bind_some,pure,hbody,Option.map_none]
  | some q =>
    have hlt := (List.idxOf?_eq_some_iff.mp hq).1
    have hend : add line.targetStart q=some (line.targetStart+q) := add_eq (by omega)
    have hquery : add (line.targetStart+q) 1=some (line.targetStart+q+1) := add_eq (by omega)
    simp only [Option.bind_eq_bind,Option.getD_some,hend,Option.bind_some,hquery,pure,hbody,Option.map_some]

/-- No slice of the parser is out of range, and its loop ends. -/
theorem parse_eq (h : buf.length < sliceLimit) : parse buf=some (Control.parse buf) := by
  rw [parse,Control.parse]
  cases hend : findSub terminator buf with
  | none =>
    dsimp only
    split <;> rfl
  | some headEnd =>
    have hle : headEnd+terminator.length ≤ buf.length := findSub_le hend
    have hfour : terminator.length=4 := rfl
    have hword : wordLimit=2*sliceLimit := rfl
    have hhead : range buf 0 headEnd=some (buf.take headEnd) := range_front (by omega)
    have hlen : (buf.take headEnd).length=headEnd := by
      rw [List.length_take]
      omega
    have hlend := lineEnd_le (buf.take headEnd)
    have hline : range (buf.take headEnd) 0 (Control.lineEnd (buf.take headEnd))=
        some ((buf.take headEnd).take (Control.lineEnd (buf.take headEnd))) := range_front hlend
    have hshort : ((buf.take headEnd).take (Control.lineEnd (buf.take headEnd))).length < sliceLimit := by
      rw [List.length_take]
      omega
    have hraw := headersRaw_eq (by omega) hlend
    have hloop : ∀raw : Bytes,raw.length < sliceLimit →
        fieldLoop raw (raw.length+1) 0 none=some (Control.parseFields (Control.splitCrlf raw) none) := by
      intro raw hr
      exact fieldLoop_eq hr _ 0 none (Nat.succ_pos _) (Nat.lt_succ_self _)
    have hfields := hloop ((buf.take headEnd).drop (Control.lineEnd (buf.take headEnd)+2))
      (by rw [List.length_drop]; omega)
    have hbody : add headEnd 4=some (headEnd+4) := add_eq (by rw [sliceLimit] at *; omega)
    dsimp only
    simp only [Option.bind_eq_bind,hhead,Option.bind_some,hline,parseLine_eq hshort]
    cases hlined : Control.parseLine ((buf.take headEnd).take (Control.lineEnd (buf.take headEnd))) with
    | error e => rfl
    | ok line =>
      have hfits := (Control.parseLine_ok hlined).fits
      rw [List.length_take,hlen] at hfits
      simp only [hraw,Option.bind_some,hfields]
      cases Control.parseFields (Control.splitCrlf ((buf.take headEnd).drop (Control.lineEnd (buf.take headEnd)+2))) none with
      | error e => rfl
      | ok declared =>
        dsimp only
        split
        · rfl
        · split
          · rfl
          · rw [requestOf_eq (by rw [sliceLimit] at *; omega) (by rw [sliceLimit] at *; omega)]
            rfl

end Parser

end Bolina.Checked
