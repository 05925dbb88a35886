import Bolina.Framework.Panic
import Bolina.Framework.Utf8
import Bolina.Transport.Resolver

namespace Bolina.Transport

open Panic

def dot : UInt8 := 0x2e

def hexAlphabet : Bytes := Utf8.ascii "0123456789abcdef"
def nsAlphabet : Bytes := Utf8.ascii "abcdefghijklmnopqrstuvwxyz0123456789-"
def pathAlphabet : Bytes := nsAlphabet++Utf8.ascii "._"

/-- A segment of a path that names no directory of its own. -/
structure Segment (seg : Bytes) : Prop where
  nonempty : seg≠[]
  chars : ∀c∈seg,c∈pathAlphabet
  noDot : seg≠Utf8.ascii "."
  noDots : seg≠Utf8.ascii ".."

/-- The text of a canonical id. -/
structure Canonical (fp ns path : Bytes) : Prop where
  fpLength : fp.length=16
  fpChars : ∀c∈fp,c∈hexAlphabet
  nsLength : 1 ≤ ns.length ∧ ns.length ≤ 32
  nsChars : ∀c∈ns,c∈nsAlphabet
  pathLength : 1 ≤ path.length ∧ path.length ≤ 180
  segments : ∀seg∈path.splitOn slash,Segment seg

def canonicalText (fp ns path : Bytes) : Bytes := Utf8.ascii "bol:"++(fp++slash::(ns++slash::path))

section Alphabets

/-- What holds of the 256 bytes holds of each. -/
theorem forall_byte (p : UInt8 → Bool) (h : (List.range 256).all (fun n => p (UInt8.ofNat n))=true) (c : UInt8) :
    p c=true := by
  have hc := List.all_eq_true.mp h c.toNat (List.mem_range.mpr c.toNat_lt)
  rwa [UInt8.ofNat_toNat] at hc

theorem isHexLower_iff (c : UInt8) : isHexLower c=true ↔ c∈hexAlphabet := by
  have h := forall_byte (fun c => isHexLower c==decide (c∈hexAlphabet)) (by decide +kernel) c
  rw [beq_iff_eq.mp h,decide_eq_true_iff]

theorem isNsChar_iff (c : UInt8) : isNsChar c=true ↔ c∈nsAlphabet := by
  have h := forall_byte (fun c => isNsChar c==decide (c∈nsAlphabet)) (by decide +kernel) c
  rw [beq_iff_eq.mp h,decide_eq_true_iff]

theorem isPathChar_iff (c : UInt8) : isPathChar c=true ↔ c∈pathAlphabet := by
  have h := forall_byte (fun c => isPathChar c==decide (c∈pathAlphabet)) (by decide +kernel) c
  rw [beq_iff_eq.mp h,decide_eq_true_iff]

theorem slash_not_ns : isNsChar slash=false := by decide

end Alphabets

section Path

/-- The counters of a segment tell whether it is empty, a dot or two dots. -/
theorem segLenInvalid_iff (seg : Bytes) : segLenInvalid seg.length (seg.count dot)=true ↔
    seg=[] ∨ seg=Utf8.ascii "." ∨ seg=Utf8.ascii ".." := by
  have hone : Utf8.ascii "."=List.replicate 1 dot := by decide
  have htwo : Utf8.ascii ".."=List.replicate 2 dot := by decide
  rw [hone,htwo,segLenInvalid,decide_eq_true_iff]
  constructor
  · intro hw
    obtain h | ⟨hcount,hle⟩ := hw
    · exact Or.inl (List.length_eq_zero_iff.mp h)
    · rw [List.count_eq_length] at hcount
      have hall : seg=List.replicate seg.length dot :=
        List.eq_replicate_iff.mpr ⟨rfl,fun c hc => (hcount c hc).symm⟩
      have hcases : seg.length=0 ∨ seg.length=1 ∨ seg.length=2 := by omega
      obtain h | h | h := hcases
      · exact Or.inl (List.length_eq_zero_iff.mp h)
      · exact Or.inr (Or.inl (h ▸ hall))
      · exact Or.inr (Or.inr (h ▸ hall))
  · intro hw
    obtain rfl | rfl | rfl := hw
    · exact Or.inl rfl
    · exact Or.inr ⟨by simp,by simp⟩
    · exact Or.inr ⟨by simp,by simp⟩

theorem segment_iff (seg : Bytes) (hseg : ∀c∈seg,c∈pathAlphabet) :
    Segment seg ↔ segLenInvalid seg.length (seg.count dot)=false := by
  rw [← Bool.not_eq_true,segLenInvalid_iff]
  constructor
  · intro h hw
    obtain he | he | he := hw
    · exact h.nonempty he
    · exact h.noDot he
    · exact h.noDots he
  · exact fun h => ⟨fun he => h (Or.inl he),hseg,fun he => h (Or.inr (Or.inl he)),fun he => h (Or.inr (Or.inr he))⟩

/-- The part of a segment that has been read is part of the segment. -/
theorem not_segments {path acc : Bytes} {c : UInt8} (hc : c∈acc) (hno : c∉pathAlphabet) :
    ¬∀seg∈path.splitOnPPrepend (fun c => c==slash) acc,Segment seg := by
  intro h
  rw [List.splitOnPPrepend_eq_modifyHead] at h
  cases hsplit : path.splitOnP (fun c => c==slash) with
  | nil => exact List.splitOnP_ne_nil _ _ hsplit
  | cons seg segs =>
    rw [hsplit,List.modifyHead_cons] at h
    have hseg := (h (acc.reverse++seg) List.mem_cons_self).chars
    exact hno (hseg c (List.mem_append_left _ (List.mem_reverse.mpr hc)))

/-- The loop over a path accepts it exactly if its segments are valid; the counters stand for the
part of a segment that has been read. -/
theorem pathLoop_iff (path acc : Bytes) (hacc : ∀c∈acc,c∈pathAlphabet) :
    pathLoop path acc.length (acc.count dot)=true ↔
      ∀seg∈path.splitOnPPrepend (fun c => c==slash) acc,Segment seg := by
  have hrev : ∀acc : Bytes,(∀c∈acc,c∈pathAlphabet) →
      (Segment acc.reverse ↔ segLenInvalid acc.length (acc.count dot)=false) := by
    intro acc hacc
    have h := segment_iff acc.reverse (fun c hc => hacc c (List.mem_reverse.mp hc))
    rwa [List.length_reverse,List.count_reverse] at h
  induction path generalizing acc with
  | nil =>
    rw [pathLoop,List.splitOnPPrepend_nil,List.forall_mem_singleton,hrev acc hacc,Bool.not_eq_true']
  | cons c path ih =>
    rw [pathLoop]
    by_cases hs : c=slash
    · rw [if_neg (by simp [hs]),if_pos hs,List.splitOnPPrepend_cons_pos (by simp [hs]),List.forall_mem_cons,
        hrev acc hacc]
      cases hi : segLenInvalid acc.length (acc.count dot) with
      | true => simp
      | false =>
        have hrest := ih [] (fun c hc => absurd hc List.not_mem_nil)
        rw [List.splitOnPPrepend_nil_right] at hrest
        rw [if_neg (by simp),and_iff_right rfl]
        exact hrest
    · rw [List.splitOnPPrepend_cons_neg (by simp [hs])]
      by_cases hp : isPathChar c=true
      · have hin := (isPathChar_iff c).mp hp
        have hnext := ih (c::acc) (List.forall_mem_cons.mpr ⟨hin,hacc⟩)
        have hcount : (c::acc).count dot=if c=dot then acc.count dot+1 else acc.count dot := by
          rw [List.count_cons]
          split_ifs <;> simp_all
        rw [hcount] at hnext
        rw [if_neg (by simp [hp]),if_neg hs]
        exact hnext
      · rw [if_pos ⟨Bool.not_eq_true _ ▸ hp,hs⟩]
        refine ⟨fun h => (by cases h),fun h => ?_⟩
        exact absurd h (not_segments List.mem_cons_self (fun hin => hp ((isPathChar_iff c).mpr hin)))

theorem pathLoop_splitOn (path : Bytes) : pathLoop path 0 0=true ↔ ∀seg∈path.splitOn slash,Segment seg := by
  rw [List.splitOn_eq_splitOnP,List.splitOnP_eq_splitOnPPrepend]
  exact pathLoop_iff path [] (fun c hc => absurd hc List.not_mem_nil)

end Path

section Grammar

/-- The checks of `validate_canonical`, all passed. -/
theorem validateCanonical_iff_parts (id : Bytes) : validateCanonical id=true ↔
    4+fpHexLen+3 ≤ id.length ∧ id.take 4=Utf8.ascii "bol:" ∧ ((id.drop 4).take fpHexLen).all isHexLower=true ∧
      ∃rest,id.drop (4+fpHexLen)=slash::rest ∧ (rest.takeWhile (fun c => c≠slash)).all isNsChar=true ∧
        1 ≤ (rest.takeWhile (fun c => c≠slash)).length ∧ (rest.takeWhile (fun c => c≠slash)).length ≤ nsMax ∧
          ∃c path,rest.dropWhile (fun c => c≠slash)=c::path ∧ pathLoop path 0 0=true ∧ 1 ≤ path.length ∧
            path.length ≤ pathMax := by
  have hbol : Utf8.ascii "bol:"=[0x62,0x6f,0x6c,0x3a] := by decide
  rw [hbol,validateCanonical]
  by_cases hl : id.length < 4+fpHexLen+3
  · rw [if_pos hl]
    exact ⟨fun h => (by cases h),fun h => absurd h.1 (Nat.not_le.mpr hl)⟩
  rw [if_neg hl,and_iff_right (Nat.not_lt.mp hl)]
  by_cases hb : id.take 4≠[0x62,0x6f,0x6c,0x3a]
  · rw [if_pos hb]
    exact ⟨fun h => (by cases h),fun h => absurd h.1 hb⟩
  rw [if_neg hb,and_iff_right (not_not.mp hb)]
  by_cases hx : ((id.drop 4).take fpHexLen).all isHexLower=false
  · rw [if_pos hx]
    exact ⟨fun h => (by cases h),fun h => absurd (hx.symm.trans h.1) (by decide)⟩
  rw [if_neg hx,and_iff_right (Bool.eq_true_of_not_eq_false hx)]
  cases hd : id.drop (4+fpHexLen) with
  | nil => exact ⟨fun h => (by cases h),fun ⟨_,h,_⟩ => (by cases h)⟩
  | cons c rest =>
    by_cases hs : c≠slash
    · simp only [if_pos hs]
      exact ⟨fun h => (by cases h),fun ⟨_,h,_⟩ => absurd (List.cons.inj h).1 hs⟩
    have hc : c=slash := not_not.mp hs
    subst hc
    have hrest : ∀P : Bytes → Prop,(∃r,slash::rest=slash::r ∧ P r) ↔ P rest := by
      intro P
      exact ⟨fun ⟨r,he,hp⟩ => (List.cons.inj he).2 ▸ hp,fun hp => ⟨rest,rfl,hp⟩⟩
    simp only [if_neg hs,hrest]
    by_cases hn : (rest.takeWhile (fun c => c≠slash)).all isNsChar=false
    · rw [if_pos hn]
      exact ⟨fun h => (by cases h),fun h => absurd (hn.symm.trans h.1) (by decide)⟩
    rw [if_neg hn,and_iff_right (Bool.eq_true_of_not_eq_false hn)]
    by_cases hw : (rest.takeWhile (fun c => c≠slash)).length < 1 ∨ nsMax < (rest.takeWhile (fun c => c≠slash)).length
    · rw [if_pos hw]
      refine ⟨fun h => (by cases h),fun h => ?_⟩
      omega
    rw [if_neg hw,and_iff_right (by omega),and_iff_right (by omega)]
    cases hp : rest.dropWhile (fun c => c≠slash) with
    | nil => exact ⟨fun h => (by cases h),fun ⟨_,_,h,_⟩ => (by cases h)⟩
    | cons c path =>
      have hpath : ∀P : Bytes → Prop,(∃c' p,c::path=c'::p ∧ P p) ↔ P path := by
        intro P
        exact ⟨fun ⟨_,p,he,hp⟩ => (List.cons.inj he).2 ▸ hp,fun hp => ⟨c,path,rfl,hp⟩⟩
      simp only [hpath]
      by_cases hl : pathLoop path 0 0=false
      · rw [if_pos hl]
        exact ⟨fun h => (by cases h),fun h => absurd (hl.symm.trans h.1) (by decide)⟩
      · rw [if_neg hl,and_iff_right (Bool.eq_true_of_not_eq_false hl),decide_eq_true_iff]

theorem all_iff {p : UInt8 → Bool} {alphabet : Bytes} (h : ∀c,p c=true ↔ c∈alphabet) (bs : Bytes) :
    bs.all p=true ↔ ∀c∈bs,c∈alphabet := by
  rw [List.all_eq_true]
  exact forall₂_congr (fun c _ => h c)

theorem canonicalText_length (fp ns path : Bytes) :
    (canonicalText fp ns path).length=4+(fp.length+(ns.length+(path.length+1)+1)) := by
  have hbol : (Utf8.ascii "bol:").length=4 := by decide
  rw [canonicalText,List.length_append,List.length_append,List.length_cons,List.length_append,List.length_cons,hbol]

/-- A byte string is accepted exactly if it is the text of a canonical id. -/
theorem validateCanonical_iff (s : Bytes) :
    validateCanonical s=true ↔ ∃fp ns path,s=canonicalText fp ns path ∧ Canonical fp ns path := by
  rw [validateCanonical_iff_parts]
  constructor
  · intro hw
    obtain ⟨hl,hb,hx,rest,hd,hn,hn1,hn2,c,path,hp,hloop,hp1,hp2⟩ := hw
    have hc : c=slash := by
      have hhead := List.head?_dropWhile_not (fun c => decide (c≠slash)) rest
      rw [hp] at hhead
      simpa using hhead
    subst hc
    refine ⟨(s.drop 4).take fpHexLen,rest.takeWhile (fun c => c≠slash),path,?_,?_⟩
    · calc
        s=s.take 4++((s.drop 4).take fpHexLen++(s.drop 4).drop fpHexLen) := by
          rw [List.take_append_drop,List.take_append_drop]
        _=s.take 4++((s.drop 4).take fpHexLen++slash::(rest.takeWhile (fun c => c≠slash)++
            rest.dropWhile (fun c => c≠slash))) := by rw [List.drop_drop,hd,List.takeWhile_append_dropWhile]
        _=canonicalText ((s.drop 4).take fpHexLen) (rest.takeWhile (fun c => c≠slash)) path := by rw [hb,hp,canonicalText]
    · refine ⟨?_,(all_iff isHexLower_iff _).mp hx,⟨hn1,hn2⟩,(all_iff isNsChar_iff _).mp hn,⟨hp1,hp2⟩,
        (pathLoop_splitOn path).mp hloop⟩
      rw [List.length_take,List.length_drop,fpHexLen] at *
      omega
  · intro hw
    obtain ⟨fp,ns,path,rfl,h⟩ := hw
    have hlen := canonicalText_length fp ns path
    have hfp := h.fpLength
    have hns := h.nsLength
    have hpath := h.pathLength
    have hfour : (Utf8.ascii "bol:").length=4 := by decide
    have hd4 : (canonicalText fp ns path).drop 4=fp++slash::(ns++slash::path) := List.drop_left' hfour
    have hnoslash : ∀c∈ns,decide (c≠slash)=true := by
      intro c hc
      have hin := (isNsChar_iff c).mpr (h.nsChars c hc)
      apply decide_eq_true
      intro heq
      obtain rfl := heq
      rw [slash_not_ns] at hin
      cases hin
    have htake : (ns++slash::path).takeWhile (fun c => c≠slash)=ns := by
      rw [List.takeWhile_append_of_pos hnoslash,List.takeWhile_cons_of_neg (by simp),List.append_nil]
    have hdrop : (ns++slash::path).dropWhile (fun c => c≠slash)=slash::path := by
      rw [List.dropWhile_append_of_pos hnoslash,List.dropWhile_cons_of_neg (by simp)]
    refine ⟨by rw [hlen,fpHexLen]; omega,List.take_left' hfour,?_,ns++slash::path,?_,?_,?_,?_,slash,path,hdrop,
      (pathLoop_splitOn path).mpr h.segments,hpath.1,hpath.2⟩
    · rw [hd4,List.take_left' (by rw [hfp,fpHexLen])]
      exact (all_iff isHexLower_iff fp).mpr h.fpChars
    · rw [← List.drop_drop,hd4,List.drop_left' (by rw [hfp,fpHexLen])]
    · rw [htake]
      exact (all_iff isNsChar_iff ns).mpr h.nsChars
    · rw [htake]
      exact hns.1
    · rw [htake]
      exact hns.2

end Grammar

end Bolina.Transport

namespace Bolina.Checked

open Panic Transport

section Validate

variable (id : Bytes)

/-- The loop over the namespace: where it stops, or nothing where it meets a byte that is not allowed. -/
def nsLoop : Nat → Nat → Option (Option Nat)
  | 0,_ => none
  | fuel+1,pos =>
    if pos < id.length then do
      if (← index id pos)=slash then return some pos
      else if isNsChar (← index id pos)=false then return none
      else nsLoop fuel (pos+1)
    else some (some pos)

/-- The loop over the path, with the check of its last segment. -/
def pathLoop : Nat → Nat → Nat → Nat → Option Bool
  | 0,_,_,_ => none
  | fuel+1,pos,segLen,dots =>
    if pos < id.length then do
      let c ← index id pos
      if isPathChar c=false ∧ c≠slash then return false
      else if c=slash then
        if segLenInvalid segLen dots then return false else pathLoop fuel (pos+1) 0 0
      else pathLoop fuel (pos+1) (segLen+1) (if c=0x2e then dots+1 else dots)
    else some (!segLenInvalid segLen dots)

/-- `validate_canonical` with every index and every range checked. -/
def validateCanonical (fuel : Nat) : Option Bool := do
  if id.length < 4+fpHexLen+3 then return false
  else if (← range id 0 4)≠[0x62,0x6f,0x6c,0x3a] then return false
  else if (← range id 4 (4+fpHexLen)).all isHexLower=false then return false
  else if (← index id (4+fpHexLen))≠slash then return false
  else
    let nsStart := 4+fpHexLen+1
    match ← nsLoop id fuel nsStart with
    | none => return false
    | some pos =>
      let nsLen ← sub pos nsStart
      if nsLen < 1 ∨ nsMax < nsLen then return false
      else if id.length ≤ pos then return false
      else if (← index id pos)≠slash then return false
      else
        let pathStart := pos+1
        if (← pathLoop id fuel pathStart 0 0)=false then return false
        else
          let pathLen ← sub id.length pathStart
          return decide (1 ≤ pathLen ∧ pathLen ≤ pathMax)

variable {id}

theorem nsLoop_eq (fuel pos : Nat) (hp : pos ≤ id.length) (hf : id.length-pos < fuel) :
    nsLoop id fuel pos=some (if ((id.drop pos).takeWhile (fun c => c≠slash)).all isNsChar=true
      then some (pos+((id.drop pos).takeWhile (fun c => c≠slash)).length) else none) := by
  induction fuel generalizing pos with
  | zero => omega
  | succ fuel ih =>
    rw [nsLoop]
    by_cases hlt : pos < id.length
    · rw [if_pos hlt,index_eq hlt,List.drop_eq_getElem_cons hlt]
      simp only [Option.bind_eq_bind,Option.bind_some]
      by_cases hs : id[pos]=slash
      · rw [if_pos hs,List.takeWhile_cons_of_neg (by simp [hs])]
        rfl
      · rw [if_neg hs,List.takeWhile_cons_of_pos (by simp [hs]),List.all_cons,List.length_cons]
        cases hn : isNsChar id[pos] with
        | false => rfl
        | true =>
          rw [if_neg (by simp),ih (pos+1) hlt (by omega),Bool.true_and,Nat.add_assoc,
            Nat.add_comm 1]
    · rw [if_neg hlt,List.drop_of_length_le (Nat.not_lt.mp hlt)]
      rfl

theorem pathLoop_eq (fuel pos segLen dots : Nat) (hp : pos ≤ id.length) (hf : id.length-pos < fuel) :
    pathLoop id fuel pos segLen dots=some (Transport.pathLoop (id.drop pos) segLen dots) := by
  induction fuel generalizing pos segLen dots with
  | zero => omega
  | succ fuel ih =>
    rw [pathLoop]
    by_cases hlt : pos < id.length
    · rw [if_pos hlt,index_eq hlt,List.drop_eq_getElem_cons hlt,Transport.pathLoop]
      simp only [Option.bind_eq_bind,Option.bind_some]
      have hnext := fun segLen dots => ih (pos+1) segLen dots hlt (by omega)
      split_ifs
      · rfl
      · rfl
      · exact hnext 0 0
      · exact hnext _ _
      · exact hnext _ _
    · rw [if_neg hlt,List.drop_of_length_le (Nat.not_lt.mp hlt),Transport.pathLoop]

/-- No index is out of range, and the loops end. -/
theorem validateCanonical_eq (fuel : Nat) (hf : id.length < fuel) :
    validateCanonical id fuel=some (Transport.validateCanonical id) := by
  rw [validateCanonical,Transport.validateCanonical]
  by_cases hl : id.length < 4+fpHexLen+3
  · rw [if_pos hl,if_pos hl]
    rfl
  have hlen : 4+fpHexLen+3 ≤ id.length := Nat.not_lt.mp hl
  have hat : 4+fpHexLen < id.length := by omega
  have hnext : 4+fpHexLen+1 ≤ id.length := hat
  rw [if_neg hl,if_neg hl,range_front (by omega),range_add (by omega),index_eq hat,List.drop_eq_getElem_cons hat]
  simp only [Option.bind_eq_bind,Option.bind_some]
  by_cases hb : id.take 4≠[0x62,0x6f,0x6c,0x3a]
  · rw [if_pos hb,if_pos hb]
    rfl
  rw [if_neg hb,if_neg hb]
  by_cases hx : ((id.drop 4).take fpHexLen).all isHexLower=false
  · rw [if_pos hx,if_pos hx]
    rfl
  rw [if_neg hx,if_neg hx]
  by_cases hs : id[4+fpHexLen]≠slash
  · rw [if_pos hs,if_pos hs]
    rfl
  rw [if_neg hs,if_neg hs,nsLoop_eq fuel (4+fpHexLen+1) hnext (by omega)]
  generalize hrest : id.drop (4+fpHexLen+1)=rest
  generalize hns : rest.takeWhile (fun c => c≠slash)=ns
  simp only [Option.bind_some]
  by_cases hn : ns.all isNsChar=false
  · rw [if_pos hn,hn]
    rfl
  rw [if_neg hn,if_pos (Bool.eq_true_of_not_eq_false hn)]
  simp only [sub_eq (Nat.le_add_right (4+fpHexLen+1) ns.length),Nat.add_sub_cancel_left,Option.bind_some]
  by_cases hw : ns.length < 1 ∨ nsMax < ns.length
  · rw [if_pos hw,if_pos hw]
    rfl
  rw [if_neg hw,if_neg hw]
  -- what follows the namespace starts where the first loop has stopped
  have hback : rest.dropWhile (fun c => c≠slash)=id.drop (4+fpHexLen+1+ns.length) := by
    have happ : ns++rest.dropWhile (fun c => c≠slash)=rest := hns ▸ List.takeWhile_append_dropWhile
    rw [← List.drop_drop,hrest]
    conv_rhs => rw [← happ]
    rw [List.drop_left]
  rw [hback]
  by_cases hend : id.length ≤ 4+fpHexLen+1+ns.length
  · rw [if_pos hend,List.drop_of_length_le hend]
    rfl
  have hpos : 4+fpHexLen+1+ns.length < id.length := Nat.not_le.mp hend
  have hslash : id[4+fpHexLen+1+ns.length]=slash := by
    have hhead := List.head?_dropWhile_not (fun c => decide (c≠slash)) rest
    rw [hback,List.drop_eq_getElem_cons hpos,List.head?_cons] at hhead
    have hnot : decide (id[4+fpHexLen+1+ns.length]≠slash)=false := hhead
    exact not_not.mp (of_decide_eq_false hnot)
  rw [if_neg hend,index_eq hpos,List.drop_eq_getElem_cons hpos]
  simp only [Option.bind_some,if_neg (not_not.mpr hslash)]
  rw [pathLoop_eq fuel (4+fpHexLen+1+ns.length+1) 0 0 hpos (by omega),sub_eq hpos,List.length_drop]
  simp only [Option.bind_some]
  split_ifs <;> rfl

end Validate

end Bolina.Checked

namespace Bolina.Transport

/-- `validate_canonical` stays in range, ends, and accepts exactly the canonical ids. -/
theorem canonical_grammar (s : Bytes) :
    (∀fuel,s.length < fuel → Checked.validateCanonical s fuel=some (validateCanonical s)) ∧
      (validateCanonical s=true ↔ ∃fp ns path,s=canonicalText fp ns path ∧ Canonical fp ns path) :=
  ⟨fun fuel hf => Checked.validateCanonical_eq fuel hf,validateCanonical_iff s⟩

end Bolina.Transport
