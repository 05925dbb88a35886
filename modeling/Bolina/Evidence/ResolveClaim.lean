import Bolina.Codec.Codec
import Mathlib.Data.Finset.Lattice.Fold
import Mathlib.Order.Lattice.Nat

namespace Bolina.Attest

open BigEndian
open Codec (Crypto verifySigned domainSpan)

def lenSpanRef : Nat := 16

inductive EvidenceClass where
  | DirectObservation
  | ExpertTestimony
  | Documentation
  | Inference
  deriving DecidableEq,Repr

/-- An unknown method is the weakest. -/
def classOf (methodId : UInt8) : EvidenceClass :=
  if 1 ≤ methodId ∧ methodId ≤ 4 then .DirectObservation
  else if methodId=5 ∨ methodId=6 then .Documentation
  else if methodId=7 then .ExpertTestimony
  else .Inference

def ceilingQ8 : EvidenceClass → UInt8
  | .DirectObservation => 242
  | .ExpertTestimony => 216
  | .Documentation => 191
  | .Inference => 165

def isVolatile (volatility : UInt8) : Bool := volatility != 2

def effectiveConfidence (statedQ8 strongestCeilingQ8 : UInt8) : UInt8 :=
  if statedQ8 ≤ strongestCeilingQ8 then statedQ8 else strongestCeilingQ8

inductive Role where
  | None
  | Executor
  deriving DecidableEq,Repr

inductive OriginState where
  | Effect
  | Absent
  | NonEffect
  deriving DecidableEq,Repr

structure ResolveContext where
  roleOf : Bytes → Role
  resolveOrigin : Bytes → OriginState
  isSuperseded : Bytes → Bytes → Bytes → Bool

structure ResolutionRecord where
  cited : Nat
  inlineSpans : Nat
  supportable : Nat
  subjectMatched : Nat
  superseded : Nat
  unresolved : Nat
  nonEffect : Nat
  deriving DecidableEq,Repr

structure Supported where
  effectiveQ8 : UInt8
  pendingStronger : Bool
  record : ResolutionRecord
  deriving DecidableEq,Repr

inductive ClaimState where
  | Supported (s : Supported)
  | Unresolved (record : ResolutionRecord)
  | Unsupported (record : ResolutionRecord)
  deriving DecidableEq,Repr

structure Span where
  spanId : Bytes
  tbs : Bytes
  sig : Bytes
  executor : Bytes
  resourceId : Bytes
  origin : Bytes
  volatility : UInt8
  methodId : UInt8
  deriving DecidableEq

structure Claim where
  spanIds : Bytes
  spanCount : Nat
  subject : Bytes
  confidenceQ8 : UInt8
  deriving DecidableEq

def matchSpan (spans : List Span) (spanId : Bytes) : Option Span := spans.find? (fun s => s.spanId == spanId)

def spanSupportable (K : Crypto) (span : Span) (ctx : ResolveContext) : Bool :=
  if verifySigned K domainSpan span.tbs span.sig span.executor=false then false
  else ctx.roleOf span.executor == .Executor

/-- The locals of the walk over the citations. -/
structure Walk where
  record : ResolutionRecord
  strongestCeiling : UInt8
  hasUnresolved : Bool
  deriving DecidableEq

def Walk.start : Walk := ⟨⟨0,0,0,0,0,0,0⟩,0,false⟩

section Resolve

variable (K : Crypto) (claim : Claim) (spans : List Span) (ctx : ResolveContext) (claimEnvelope : Bytes)

/-- A span behind its checks: the origin decides. -/
def Walk.weigh (w : Walk) (span : Span) : Walk :=
  match ctx.resolveOrigin span.origin with
  | .Effect =>
    if isVolatile span.volatility && ctx.isSuperseded span.resourceId span.origin claimEnvelope then
      { w with record.superseded := w.record.superseded+1 }
    else
      let ceil := ceilingQ8 (classOf span.methodId)
      if w.strongestCeiling < ceil then { w with strongestCeiling := ceil } else w
  | .Absent => { w with record.unresolved := w.record.unresolved+1,hasUnresolved := true }
  | .NonEffect => { w with record.nonEffect := w.record.nonEffect+1 }

/-- One citation, from its id on. -/
def Walk.visit (w : Walk) (sid : Bytes) : Walk :=
  match matchSpan spans sid with
  | none => w
  | some span =>
    let w := { w with record.inlineSpans := w.record.inlineSpans+1 }
    if spanSupportable K span ctx=false then w
    else
      let w := { w with record.supportable := w.record.supportable+1 }
      if span.resourceId≠claim.subject then w
      else
        let w := { w with record.subjectMatched := w.record.subjectMatched+1 }
        w.weigh ctx claimEnvelope span

/-- The loop over the citations ends where the packed ids do. -/
def citeLoop : List Nat → Walk → Walk
  | [],w => w
  | i::rest,w =>
    let w := { w with record.cited := w.record.cited+1 }
    if claim.spanIds.length < i*lenSpanRef+lenSpanRef then w
    else citeLoop rest (w.visit K claim spans ctx claimEnvelope (slice claim.spanIds (i*lenSpanRef) lenSpanRef))

def resolveClaim : ClaimState :=
  let w := citeLoop K claim spans ctx claimEnvelope (List.range claim.spanCount) Walk.start
  if 0 < w.strongestCeiling then
    .Supported ⟨effectiveConfidence claim.confidenceQ8 w.strongestCeiling,w.hasUnresolved,w.record⟩
  else if w.hasUnresolved then .Unresolved w.record
  else .Unsupported w.record

end Resolve

section Reference

variable (K : Crypto) (claim : Claim) (spans : List Span) (ctx : ResolveContext) (claimEnvelope : Bytes)

/-- The citations whose ids are there. -/
def Claim.cited (claim : Claim) : List Bytes :=
  (List.range (min claim.spanCount (claim.spanIds.length/lenSpanRef))).map
    (fun i => slice claim.spanIds (i*lenSpanRef) lenSpanRef)

/-- The signature verifies, the signer is an executor, and the resource is the subject. -/
def qualifies (s : Span) : Bool := spanSupportable K s ctx && s.resourceId == claim.subject

def supersededBy (s : Span) : Bool := isVolatile s.volatility && ctx.isSuperseded s.resourceId s.origin claimEnvelope

def supports (s : Span) : Bool :=
  qualifies K claim ctx s && ctx.resolveOrigin s.origin == .Effect && !supersededBy ctx claimEnvelope s

def pends (s : Span) : Bool := qualifies K claim ctx s && ctx.resolveOrigin s.origin == .Absent

/-- The first inline span of an id is one of `P`. -/
def found (P : Span → Bool) (id : Bytes) : Bool := (matchSpan spans id).any P

/-- How many of the citations get to each stage. -/
def recordOf (ids : List Bytes) : ResolutionRecord where
  cited := ids.length
  inlineSpans := ids.countP (found spans (fun _ => true))
  supportable := ids.countP (found spans (fun s => spanSupportable K s ctx))
  subjectMatched := ids.countP (found spans (qualifies K claim ctx))
  superseded := ids.countP (found spans (fun s =>
    qualifies K claim ctx s && ctx.resolveOrigin s.origin == .Effect && supersededBy ctx claimEnvelope s))
  unresolved := ids.countP (found spans (pends K claim ctx))
  nonEffect := ids.countP (found spans (fun s => qualifies K claim ctx s && ctx.resolveOrigin s.origin == .NonEffect))

/-- The ceiling that an id brings in; none is zero. -/
def brings (id : Bytes) : Nat :=
  match matchSpan spans id with
  | none => 0
  | some s => if supports K claim ctx claimEnvelope s then (ceilingQ8 (classOf s.methodId)).toNat else 0

def strongest (ids : List Bytes) : Nat := ids.toFinset.sup (brings K claim spans ctx claimEnvelope)

variable {K claim spans ctx claimEnvelope}

theorem ceilingQ8_pos (c : EvidenceClass) : 0 < (ceilingQ8 c).toNat := by
  cases c <;> decide

theorem strongest_concat (ids : List Bytes) (id : Bytes) :
    strongest K claim spans ctx claimEnvelope (ids++[id])=
      max (strongest K claim spans ctx claimEnvelope ids) (brings K claim spans ctx claimEnvelope id) := by
  rw [strongest,List.toFinset_append,Finset.sup_union,List.toFinset_cons,List.toFinset_nil,insert_empty_eq,
    Finset.sup_singleton]
  rfl

/-- One citation with its count. -/
def Walk.cite (K : Crypto) (claim : Claim) (spans : List Span) (ctx : ResolveContext) (claimEnvelope : Bytes)
    (w : Walk) (sid : Bytes) : Walk :=
  { w with record.cited := w.record.cited+1 }.visit K claim spans ctx claimEnvelope sid

/-- The counts behind a citation of a supportable span about the subject. -/
def Walk.matched (w : Walk) : Walk :=
  { w with
    record.cited := w.record.cited+1
    record.inlineSpans := w.record.inlineSpans+1
    record.supportable := w.record.supportable+1
    record.subjectMatched := w.record.subjectMatched+1 }

/-- What a walk over citations tells of them. -/
structure Walk.Tells (K : Crypto) (claim : Claim) (spans : List Span) (ctx : ResolveContext) (claimEnvelope : Bytes)
    (w : Walk) (ids : List Bytes) : Prop where
  record : w.record=recordOf K claim spans ctx claimEnvelope ids
  strongest : w.strongestCeiling.toNat=strongest K claim spans ctx claimEnvelope ids
  pending : w.hasUnresolved=ids.any (found spans (pends K claim ctx))

/-- A citation without a part in the claim changes the counts at most. -/
theorem Walk.Tells.idle {w w' : Walk} {ids : List Bytes} (h : w.Tells K claim spans ctx claimEnvelope ids) {id : Bytes}
    (hrec : w'.record=recordOf K claim spans ctx claimEnvelope (ids++[id]))
    (htop : w'.strongestCeiling=w.strongestCeiling) (hbrings : brings K claim spans ctx claimEnvelope id=0)
    (hpend : w'.hasUnresolved=(w.hasUnresolved || found spans (pends K claim ctx) id)) :
    w'.Tells K claim spans ctx claimEnvelope (ids++[id]) where
  record := hrec
  strongest := by rw [htop,h.strongest,strongest_concat,hbrings,Nat.max_zero]
  pending := by rw [hpend,h.pending,List.any_append,List.any_cons,List.any_nil,Bool.or_false]

/-- A span that is supportable and about the subject is weighed by its origin. -/
theorem Walk.Tells.weigh {w : Walk} {ids : List Bytes} (h : w.Tells K claim spans ctx claimEnvelope ids) {id : Bytes}
    {s : Span} (hm : matchSpan spans id=some s) (hs : spanSupportable K s ctx=true)
    (hq : qualifies K claim ctx s=true) :
    (w.matched.weigh ctx claimEnvelope s).Tells K claim spans ctx claimEnvelope (ids++[id]) := by
  have hrec := h.record
  rw [Walk.weigh,Walk.matched]
  cases ho : ctx.resolveOrigin s.origin with
  | Effect =>
    have hp : pends K claim ctx s=false := by simp [pends,ho]
    have hdef : (isVolatile s.volatility && ctx.isSuperseded s.resourceId s.origin claimEnvelope)=
        supersededBy ctx claimEnvelope s := rfl
    dsimp only
    rw [hdef]
    by_cases hsup : supersededBy ctx claimEnvelope s=true
    · rw [if_pos hsup]
      apply h.idle
      · simp [recordOf,List.countP_append,found,hm,hrec,hs,hq,ho,hp,hsup]
      · rfl
      · simp [brings,hm,supports,hsup]
      · simp [found,hm,hp]
    · have hb : brings K claim spans ctx claimEnvelope id=(ceilingQ8 (classOf s.methodId)).toNat := by
        simp [brings,hm,supports,hq,ho,hsup]
      have hrec' : w.matched.record=recordOf K claim spans ctx claimEnvelope (ids++[id]) := by
        simp [Walk.matched,recordOf,List.countP_append,found,hm,hrec,hs,hq,ho,hp,hsup]
      have hpend : w.hasUnresolved=(ids++[id]).any (found spans (pends K claim ctx)) := by
        simp [found,hm,hp,h.pending]
      rw [if_neg hsup]
      split_ifs with hlt
      · refine ⟨hrec',?_,hpend⟩
        rw [strongest_concat,hb,← h.strongest]
        exact (max_eq_right (UInt8.lt_iff_toNat_lt.mp hlt).le).symm
      · refine ⟨hrec',?_,hpend⟩
        rw [UInt8.lt_iff_toNat_lt] at hlt
        rw [strongest_concat,hb,← h.strongest]
        exact (max_eq_left (not_lt.mp hlt)).symm
  | Absent =>
    have hp : pends K claim ctx s=true := by simp [pends,hq,ho]
    apply h.idle
    · simp [recordOf,List.countP_append,found,hm,hrec,hs,hq,ho,hp]
    · rfl
    · simp [brings,hm,supports,ho]
    · simp [found,hm,hp]
  | NonEffect =>
    have hp : pends K claim ctx s=false := by simp [pends,ho]
    apply h.idle
    · simp [recordOf,List.countP_append,found,hm,hrec,hs,hq,ho,hp]
    · rfl
    · simp [brings,hm,supports,ho]
    · simp [found,hm,hp]

theorem Walk.Tells.cite {w : Walk} {ids : List Bytes} (h : w.Tells K claim spans ctx claimEnvelope ids) (id : Bytes) :
    (w.cite K claim spans ctx claimEnvelope id).Tells K claim spans ctx claimEnvelope (ids++[id]) := by
  have hrec := h.record
  rw [Walk.cite,Walk.visit]
  cases hm : matchSpan spans id with
  | none =>
    apply h.idle
    · simp [recordOf,List.countP_append,found,hm,hrec]
    · rfl
    · simp [brings,hm]
    · simp [found,hm]
  | some s =>
    dsimp only
    by_cases hs : spanSupportable K s ctx=false
    · have hq : qualifies K claim ctx s=false := by rw [qualifies,hs,Bool.false_and]
      rw [if_pos hs]
      apply h.idle
      · simp [recordOf,List.countP_append,found,hm,hrec,hs,hq,pends]
      · rfl
      · simp [brings,hm,supports,hq]
      · simp [found,hm,pends,hq]
    · rw [if_neg hs]
      rw [Bool.not_eq_false] at hs
      by_cases hr : s.resourceId=claim.subject
      · have hq : qualifies K claim ctx s=true := by simp [qualifies,hs,hr]
        rw [if_neg (not_not.mpr hr)]
        exact h.weigh hm hs hq
      · have hq : qualifies K claim ctx s=false := by simp [qualifies,hr]
        rw [if_pos hr]
        apply h.idle
        · simp [recordOf,List.countP_append,found,hm,hrec,hs,hq,pends]
        · rfl
        · simp [brings,hm,supports,hq]
        · simp [found,hm,pends,hq]

theorem tells_start : Walk.start.Tells K claim spans ctx claimEnvelope [] := ⟨rfl,rfl,rfl⟩

theorem tells_foldl {w : Walk} {ids : List Bytes} (h : w.Tells K claim spans ctx claimEnvelope ids) (more : List Bytes) :
    (more.foldl (Walk.cite K claim spans ctx claimEnvelope) w).Tells K claim spans ctx claimEnvelope (ids++more) := by
  induction more generalizing w ids with
  | nil => rwa [List.append_nil]
  | cons id more ih =>
    have hnext := ih (h.cite id)
    rwa [List.append_assoc] at hnext

/-- The loop visits what is there, and counts the citation that it ends on. -/
theorem citeLoop_eq (n i : Nat) (w : Walk) (hi : i ≤ claim.spanIds.length/lenSpanRef) :
    citeLoop K claim spans ctx claimEnvelope (List.range' i n) w=
      let w' := ((List.range' i (min n (claim.spanIds.length/lenSpanRef-i))).map
        (fun i => slice claim.spanIds (i*lenSpanRef) lenSpanRef)).foldl (Walk.cite K claim spans ctx claimEnvelope) w
      if n ≤ claim.spanIds.length/lenSpanRef-i then w' else { w' with record.cited := w'.record.cited+1 } := by
  induction n generalizing i w with
  | zero => simp [citeLoop]
  | succ n ih =>
    rw [List.range'_succ,citeLoop]
    by_cases hlt : claim.spanIds.length < i*lenSpanRef+lenSpanRef
    · have hend : claim.spanIds.length/lenSpanRef-i=0 := by
        rw [lenSpanRef] at *
        omega
      rw [if_pos hlt,hend]
      simp
    · have hnext : i+1 ≤ claim.spanIds.length/lenSpanRef := by
        rw [lenSpanRef] at *
        omega
      have hmin : min (n+1) (claim.spanIds.length/lenSpanRef-i)=min n (claim.spanIds.length/lenSpanRef-(i+1))+1 := by
        omega
      have hle : n+1 ≤ claim.spanIds.length/lenSpanRef-i ↔ n ≤ claim.spanIds.length/lenSpanRef-(i+1) := by omega
      rw [if_neg hlt,hmin,List.range'_succ]
      simp only [hle]
      exact ih (i+1) _ hnext

section Walked

variable (K claim spans ctx claimEnvelope)

/-- The walk of a claim tells of its citations. -/
theorem walk_tells : ∃w,w.Tells K claim spans ctx claimEnvelope claim.cited ∧
    citeLoop K claim spans ctx claimEnvelope (List.range claim.spanCount) Walk.start=
      if claim.spanCount ≤ claim.spanIds.length/lenSpanRef then w else { w with record.cited := w.record.cited+1 } := by
  refine ⟨_,tells_foldl tells_start claim.cited,?_⟩
  rw [List.range_eq_range',citeLoop_eq claim.spanCount 0 Walk.start (Nat.zero_le _),Nat.sub_zero,Claim.cited,
    List.range_eq_range']

end Walked

inductive Verdict where
  | supported (effectiveQ8 : UInt8) (pendingStronger : Bool)
  | unresolved
  | unsupported
  deriving DecidableEq,Repr

def ClaimState.verdict : ClaimState → Verdict
  | .Supported s => .supported s.effectiveQ8 s.pendingStronger
  | .Unresolved _ => .unresolved
  | .Unsupported _ => .unsupported

/-- The verdict from the strongest ceiling, zero without support, and from what is pending. -/
def verdictOf (statedQ8 : UInt8) (top : Nat) (pending : Bool) : Verdict :=
  if 0 < top then .supported (UInt8.ofNat (min statedQ8.toNat top)) pending
  else if pending then .unresolved
  else .unsupported

theorem effectiveConfidence_eq (statedQ8 ceil : UInt8) :
    effectiveConfidence statedQ8 ceil=UInt8.ofNat (min statedQ8.toNat ceil.toNat) := by
  rw [effectiveConfidence]
  split_ifs with h
  · rw [min_eq_left (UInt8.le_iff_toNat_le.mp h),UInt8.ofNat_toNat]
  · rw [UInt8.le_iff_toNat_le,not_le] at h
    rw [min_eq_right h.le,UInt8.ofNat_toNat]

theorem resolveClaim_verdict : (resolveClaim K claim spans ctx claimEnvelope).verdict=
    verdictOf claim.confidenceQ8 (strongest K claim spans ctx claimEnvelope claim.cited)
      (claim.cited.any (found spans (pends K claim ctx))) := by
  obtain ⟨w,h,hloop⟩ := walk_tells K claim spans ctx claimEnvelope
  have htop : (citeLoop K claim spans ctx claimEnvelope (List.range claim.spanCount) Walk.start).strongestCeiling=
      w.strongestCeiling := by
    rw [hloop]
    split_ifs <;> rfl
  have hpend : (citeLoop K claim spans ctx claimEnvelope (List.range claim.spanCount) Walk.start).hasUnresolved=
      w.hasUnresolved := by
    rw [hloop]
    split_ifs <;> rfl
  have hpos : 0 < w.strongestCeiling ↔ 0 < w.strongestCeiling.toNat := UInt8.lt_iff_toNat_lt
  rw [resolveClaim,verdictOf]
  simp only [htop,hpend,← h.strongest,← h.pending]
  by_cases hw : 0 < w.strongestCeiling
  · rw [if_pos hw,if_pos (hpos.mp hw),ClaimState.verdict,effectiveConfidence_eq]
  · rw [if_neg hw,if_neg (hpos.not.mp hw)]
    split_ifs <;> rfl

/-- A ceiling brought in is that of a supporting span. -/
theorem brings_pos {id : Bytes} : 0 < brings K claim spans ctx claimEnvelope id ↔
    ∃s,matchSpan spans id=some s ∧ supports K claim ctx claimEnvelope s=true := by
  rw [brings]
  cases hm : matchSpan spans id with
  | none => simp
  | some s =>
    by_cases hs : supports K claim ctx claimEnvelope s=true
    · simp [hs,ceilingQ8_pos]
    · simp [hs]

theorem brings_of_supports {id : Bytes} {s : Span} (hm : matchSpan spans id=some s)
    (hs : supports K claim ctx claimEnvelope s=true) :
    brings K claim spans ctx claimEnvelope id=(ceilingQ8 (classOf s.methodId)).toNat := by
  simp [brings,hm,hs]

theorem brings_le_strongest {ids : List Bytes} {id : Bytes} (hid : id∈ids) :
    brings K claim spans ctx claimEnvelope id ≤ strongest K claim spans ctx claimEnvelope ids :=
  Finset.le_sup (List.mem_toFinset.mpr hid)

/-- The strongest ceiling is brought in by some id. -/
theorem strongest_attained {ids : List Bytes} (hpos : 0 < strongest K claim spans ctx claimEnvelope ids) :
    ∃id∈ids,brings K claim spans ctx claimEnvelope id=strongest K claim spans ctx claimEnvelope ids := by
  obtain ⟨a,ha,_⟩ := (Finset.lt_sup_iff (a := 0)).mp hpos
  obtain ⟨id,hid,heq⟩ := Finset.exists_mem_eq_sup ids.toFinset ⟨a,ha⟩ (brings K claim spans ctx claimEnvelope)
  exact ⟨id,List.mem_toFinset.mp hid,heq.symm⟩

/-- The state that the reference gives. -/
structure Resolves (K : Crypto) (claim : Claim) (spans : List Span) (ctx : ResolveContext) (claimEnvelope : Bytes)
    (r : ClaimState) : Prop where
  supported : (∃id∈claim.cited,∃s,matchSpan spans id=some s ∧ supports K claim ctx claimEnvelope s=true) →
    ∃top pending,
      (∃id∈claim.cited,∃s,matchSpan spans id=some s ∧ supports K claim ctx claimEnvelope s=true ∧
        ceilingQ8 (classOf s.methodId)=top) ∧
      (∀id∈claim.cited,∀s,matchSpan spans id=some s → supports K claim ctx claimEnvelope s=true →
        ceilingQ8 (classOf s.methodId) ≤ top) ∧
      (pending=true ↔ ∃id∈claim.cited,∃s,matchSpan spans id=some s ∧ pends K claim ctx s=true) ∧
      r=.Supported ⟨effectiveConfidence claim.confidenceQ8 top,pending,recordOf K claim spans ctx claimEnvelope claim.cited⟩
  unresolved : ¬(∃id∈claim.cited,∃s,matchSpan spans id=some s ∧ supports K claim ctx claimEnvelope s=true) →
    (∃id∈claim.cited,∃s,matchSpan spans id=some s ∧ pends K claim ctx s=true) →
    r=.Unresolved (recordOf K claim spans ctx claimEnvelope claim.cited)
  unsupported : ¬(∃id∈claim.cited,∃s,matchSpan spans id=some s ∧ supports K claim ctx claimEnvelope s=true) →
    ¬(∃id∈claim.cited,∃s,matchSpan spans id=some s ∧ pends K claim ctx s=true) →
    r=.Unsupported (recordOf K claim spans ctx claimEnvelope claim.cited)

theorem any_found {ids : List Bytes} {P : Span → Bool} :
    ids.any (found spans P)=true ↔ ∃id∈ids,∃s,matchSpan spans id=some s ∧ P s=true := by
  simp [List.any_eq_true,found,Option.any_eq_true]

theorem strongest_pos_iff {ids : List Bytes} : 0 < strongest K claim spans ctx claimEnvelope ids ↔
    ∃id∈ids,∃s,matchSpan spans id=some s ∧ supports K claim ctx claimEnvelope s=true := by
  constructor
  · intro hpos
    obtain ⟨id,hid,heq⟩ := strongest_attained hpos
    exact ⟨id,hid,brings_pos.mp (heq ▸ hpos)⟩
  · intro h
    obtain ⟨id,hid,h⟩ := h
    exact lt_of_lt_of_le (brings_pos.mpr h) (brings_le_strongest hid)

theorem resolveClaim_resolves (hlen : claim.spanIds.length=lenSpanRef*claim.spanCount) :
    Resolves K claim spans ctx claimEnvelope (resolveClaim K claim spans ctx claimEnvelope) := by
  obtain ⟨w,h,hloop⟩ := walk_tells K claim spans ctx claimEnvelope
  have hcount : claim.spanCount ≤ claim.spanIds.length/lenSpanRef := by
    rw [hlen,lenSpanRef,Nat.mul_div_cancel_left _ (by decide)]
  have hpos : 0 < w.strongestCeiling ↔
      ∃id∈claim.cited,∃s,matchSpan spans id=some s ∧ supports K claim ctx claimEnvelope s=true := by
    rw [UInt8.lt_iff_toNat_lt,h.strongest]
    exact strongest_pos_iff
  have hpend : w.hasUnresolved=true ↔ ∃id∈claim.cited,∃s,matchSpan spans id=some s ∧ pends K claim ctx s=true := by
    rw [h.pending]
    exact any_found
  rw [if_pos hcount] at hloop
  rw [resolveClaim,hloop,h.record]
  refine ⟨?_,?_,?_⟩
  · intro hs
    have htop : 0 < strongest K claim spans ctx claimEnvelope claim.cited := strongest_pos_iff.mpr hs
    obtain ⟨id,hid,hmax⟩ := strongest_attained htop
    obtain ⟨s,hm,hsup⟩ := brings_pos.mp (hmax ▸ htop)
    refine ⟨w.strongestCeiling,w.hasUnresolved,⟨id,hid,s,hm,hsup,?_⟩,?_,hpend,if_pos (hpos.mpr hs)⟩
    · rw [UInt8.toNat_inj.symm,h.strongest,← hmax,brings_of_supports hm hsup]
    · intro id hid s hm hsup
      rw [UInt8.le_iff_toNat_le,h.strongest,← brings_of_supports hm hsup]
      exact brings_le_strongest hid
  · intro hs hp
    exact (if_neg (hpos.not.mpr hs)).trans (if_pos (hpend.mpr hp))
  · intro hs hp
    exact (if_neg (hpos.not.mpr hs)).trans (if_neg (hpend.not.mpr hp))

theorem Resolves.support {r : ClaimState} (h : Resolves K claim spans ctx claimEnvelope r) {v : Supported}
    (hv : r=.Supported v) :
    ∃id∈claim.cited,∃s,matchSpan spans id=some s ∧ supports K claim ctx claimEnvelope s=true := by
  by_contra hs
  by_cases hp : ∃id∈claim.cited,∃s,matchSpan spans id=some s ∧ pends K claim ctx s=true
  · exact ClaimState.noConfusion (hv.symm.trans (h.unresolved hs hp))
  · exact ClaimState.noConfusion (hv.symm.trans (h.unsupported hs hp))

theorem effectiveConfidence_le (statedQ8 ceil : UInt8) : effectiveConfidence statedQ8 ceil ≤ statedQ8 := by
  rw [effectiveConfidence]
  split_ifs with h
  · exact UInt8.le_refl statedQ8
  · exact UInt8.le_of_lt (UInt8.not_le.mp h)

theorem effectiveConfidence_mono (statedQ8 : UInt8) {low high : UInt8} (h : low ≤ high) :
    effectiveConfidence statedQ8 low ≤ effectiveConfidence statedQ8 high := by
  rw [effectiveConfidence,effectiveConfidence]
  split_ifs with hl hh hh
  · exact UInt8.le_refl statedQ8
  · exact absurd (UInt8.le_trans hl h) hh
  · exact UInt8.le_of_lt (UInt8.not_le.mp hl)
  · exact h

/-- Support stays, and is not less, as citations are added. -/
theorem Resolves.mono {more : Claim} {r r' : ClaimState} (h : Resolves K claim spans ctx claimEnvelope r)
    (h' : Resolves K more spans ctx claimEnvelope r') (hsubject : more.subject=claim.subject)
    (hstated : more.confidenceQ8=claim.confidenceQ8) (hcited : claim.cited⊆more.cited) {v : Supported}
    (hv : r=.Supported v) : ∃v',r'=.Supported v' ∧ v.effectiveQ8 ≤ v'.effectiveQ8 := by
  have hsame (s : Span) : supports K more ctx claimEnvelope s=supports K claim ctx claimEnvelope s := by
    rw [supports,supports,qualifies,qualifies,hsubject]
  have hsupport := h.support hv
  obtain ⟨top,pending,⟨id,hid,s,hm,hs,htop⟩,_,_,hr⟩ := h.supported hsupport
  obtain ⟨top',pending',_,hmax,_,hr'⟩ := h'.supported ⟨id,hcited hid,s,hm,(hsame s).trans hs⟩
  have hle : top ≤ top' := htop ▸ hmax id (hcited hid) s hm ((hsame s).trans hs)
  obtain rfl := ClaimState.Supported.inj (hv.symm.trans hr)
  refine ⟨_,hr',?_⟩
  rw [hstated]
  exact effectiveConfidence_mono claim.confidenceQ8 hle

theorem resolveClaim_reference (K : Crypto) (claim : Claim) (spans : List Span) (ctx : ResolveContext)
    (claimEnvelope : Bytes) (hlen : claim.spanIds.length=lenSpanRef*claim.spanCount) :
    claim.cited.length=claim.spanCount ∧
    Resolves K claim spans ctx claimEnvelope (resolveClaim K claim spans ctx claimEnvelope) ∧
    (∀v,resolveClaim K claim spans ctx claimEnvelope=.Supported v → v.effectiveQ8 ≤ claim.confidenceQ8) ∧
    ∀more : Claim,more.spanIds.length=lenSpanRef*more.spanCount → more.subject=claim.subject →
      more.confidenceQ8=claim.confidenceQ8 → claim.cited⊆more.cited →
      ∀v,resolveClaim K claim spans ctx claimEnvelope=.Supported v →
      ∃v',resolveClaim K more spans ctx claimEnvelope=.Supported v' ∧ v.effectiveQ8 ≤ v'.effectiveQ8 := by
  have h : Resolves K claim spans ctx claimEnvelope (resolveClaim K claim spans ctx claimEnvelope) :=
    resolveClaim_resolves hlen
  refine ⟨?_,h,?_,?_⟩
  · rw [Claim.cited,List.length_map,List.length_range,hlen,lenSpanRef,Nat.mul_div_cancel_left _ (by decide),min_self]
  · intro v hv
    obtain ⟨top,_,_,_,_,hr⟩ := h.supported (h.support hv)
    obtain rfl := ClaimState.Supported.inj (hv.symm.trans hr)
    exact effectiveConfidence_le claim.confidenceQ8 top
  · intro more hmore hsubject hstated hcited v hv
    exact h.mono (resolveClaim_resolves hmore) hsubject hstated hcited hv

end Reference

def executorKey : Bytes := beBytes 32 0x884b8857f4eaa1613c61504db34d4beaf346517a0e31de3cddd4d9b4201d9d0b

/-- A span that its executor has signed. -/
def signedSpan : Span where
  spanId := List.replicate 16 1
  tbs := [111,98,115]
  sig := beBytes 32 0xdef3cf734afca32f122120107123d370b9f51348d3c6a091ea9e419f8676f92e++
    beBytes 32 0x7d029d81260f0cdc7be566165412a637b8f68990b7dfe5214548f163aa8cb40a
  executor := executorKey
  resourceId := [100,111,99]
  origin := List.replicate 32 7
  volatility := 0
  methodId := 1

def citingClaim : Claim where
  spanIds := List.replicate 16 1
  spanCount := 1
  subject := [100,111,99]
  confidenceQ8 := 230

def attestCrypto : Crypto where
  blake2s _ := fixed 32 []
  ed25519 key msg sig := decide ((key,msg,sig)=(executorKey,domainSpan::signedSpan.tbs,signedSpan.sig))

def attestContext : ResolveContext where
  roleOf key := if key=executorKey then .Executor else .None
  resolveOrigin _ := .Effect
  isSuperseded _ _ _ := false

theorem resolveClaim_reference_sample :
    resolveClaim attestCrypto citingClaim [signedSpan] attestContext []=.Supported ⟨230,false,⟨1,1,1,1,0,0,0⟩⟩ ∧
    (230 : UInt8) ≤ citingClaim.confidenceQ8 := by
  have hr : resolveClaim attestCrypto citingClaim [signedSpan] attestContext []=
      .Supported ⟨230,false,⟨1,1,1,1,0,0,0⟩⟩ := by
    decide
  obtain ⟨_,_,hle,_⟩ := resolveClaim_reference attestCrypto citingClaim [signedSpan] attestContext [] (by decide)
  exact ⟨hr,hle _ hr⟩

end Bolina.Attest
