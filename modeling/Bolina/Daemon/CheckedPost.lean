import Bolina.Control.ApiIds
import Bolina.Daemon.CheckedEndpoint
import Bolina.Transport.ResolverBytes

namespace Bolina.Checked

open BigEndian Panic ByteOffsets Transport
open Control (ApiError IntentOutcome Metrics EventRing Posted trimStart stripPrefix quote colon isHexDigit hexValue isHex
  idHexLen subjHexLen bodyMax idKey resourceKey actionKey rationaleKey subjectKey)
open Codec (maxAction lenIntentId maxResource)
open Intent (Table IntentError Entry)

/-- `flat_json_get` on byte offsets; the inner `none` is a body without the key. -/
def flatJsonGet (body key : List Char) : Option (Option (List Char)) := do
  let needle := quote::key++[quote]
  match find needle body with
  | none => return none
  | some i =>
    let rest ← sliceFrom body (← add i (size needle))
    match stripPrefix colon (trimStart rest) with
    | none => return none
    | some rest =>
      match stripPrefix quote (trimStart rest) with
      | none => return none
      | some rest =>
        match find [quote] rest with
        | none => return none
        | some stop => return some (← sliceTo rest stop)

def plus : Char := Char.ofNat 0x2b

/-- `u8::from_str_radix` for the radix 16. -/
def fromStrRadix16 (s : List Char) : Option UInt8 :=
  let digits := if s.head?=some plus then s.drop 1 else s
  if digits=[] ∨ digits.all isHexDigit=false then none
  else
    let n := digits.foldl (fun n c => 16*n+hexValue c) 0
    if n < 256 then some (UInt8.ofNat n) else none

/-- The loop over the pairs of digits. -/
def idLoop (hex : List Char) : List Nat → Bytes → Option (Option Bytes)
  | [],out => some (some out)
  | i::rest,out => do
    match fromStrRadix16 (← slice hex (← mul 2 i) (← add (← mul 2 i) 2)) with
    | none => return none
    | some b => idLoop hex rest (← setAt out i b)

def parseIdHex (hex : List Char) : Option (Option Bytes) :=
  if size hex≠idHexLen ∨ isHex hex=false then some none else idLoop hex (List.range 32) (zeros 32)

/-- The key of the table out of the bytes of an id. -/
def idKeyOf (idBytes : Bytes) : Option (FixedBytes 16) := do exact (← range idBytes 0 lenIntentId) 16

/-- The checks of `post_intent` on its body; the inner `none` is a `BadRequest`. -/
def readPosted (body : List Char) : OptionT Option Posted := do
  guard (size body ≤ bodyMax)
  let id ← OptionT.mk (flatJsonGet body idKey)
  let resource ← OptionT.mk (flatJsonGet body resourceKey)
  let action ← OptionT.mk (flatJsonGet body actionKey)
  guard (action≠[] ∧ size action ≤ maxAction)
  let _ ← OptionT.mk (flatJsonGet body rationaleKey)
  let subject ← OptionT.mk (flatJsonGet body subjectKey)
  guard (size subject=subjHexLen ∧ isHex subject=true)
  let idBytes ← OptionT.mk (parseIdHex id)
  let intentId ← OptionT.lift (idKeyOf idBytes)
  return ⟨intentId,Control.utf8 resource,Control.utf8 action,subject⟩

def postIntent (body : List Char) (resolver : Resolver) (intentTable : Table) (metrics : Metrics)
    (ring : EventRing) (nowMs : UInt64) : Option (Except ApiError IntentOutcome × Table × Metrics × EventRing) := do
  match ← (readPosted body).run with
  | none => return (.error .BadRequest,intentTable,metrics,ring)
  | some p =>
    match ← resolveAndAdmit resolver intentTable p.intentId p.resource nowMs with
    | (.ok _,table) =>
      let admittedTotal ← add metrics.admittedTotal 1
      let ring ← publish ring .IntentAdmitted
      return (.ok .Accepted,table,⟨admittedTotal⟩,ring)
    | (.error e,table) =>
      if e=.Intent .DuplicateIntentId then return (.ok .AcceptedIdempotent,table,metrics,ring)
      else return (.error (.ofResolve e),table,metrics,ring)

section Bodies

/-- What follows the first match starts where it ends. -/
theorem afterFirst_of_find {needle s : List Char} {i : Nat} (h : find needle s=some i) :
    ∃a rest,s=a++(needle++rest) ∧ i=size a ∧ Control.afterFirst needle s=some rest := by
  induction s generalizing i with
  | nil =>
    rw [find] at h
    split_ifs at h with hn
    cases h
    exact ⟨[],[],by rw [hn]; rfl,rfl,by rw [Control.afterFirst,if_pos hn]⟩
  | cons c s ih =>
    rw [find] at h
    split_ifs at h with hp
    · cases h
      obtain ⟨b,hb⟩ := List.isPrefixOf_iff_prefix.mp hp
      refine ⟨[],b,hb.symm,rfl,?_⟩
      rw [Control.afterFirst,if_pos hp,← hb,List.drop_left]
    · obtain ⟨j,hj,rfl⟩ := Option.map_eq_some_iff.mp h
      obtain ⟨a,rest,rfl,rfl,hrest⟩ := ih hj
      refine ⟨c::a,rest,rfl,rfl,?_⟩
      rw [Control.afterFirst,if_neg hp,hrest]

theorem afterFirst_of_none {needle s : List Char} (h : find needle s=none) : Control.afterFirst needle s=none := by
  induction s with
  | nil =>
    rw [find] at h
    split_ifs at h with hn
    rw [Control.afterFirst,if_neg hn]
  | cons c s ih =>
    rw [find] at h
    split_ifs at h with hp
    rw [Control.afterFirst,if_neg hp,ih (Option.map_eq_none_iff.mp h)]

/-- No key makes the reader cut a character. -/
theorem flatJsonGet_eq {body : List Char} (h : size body < wordLimit) (key : List Char) :
    flatJsonGet body key=some (Control.flatJsonGet body key) := by
  rw [flatJsonGet,Control.flatJsonGet]
  cases hf : find (quote::key++[quote]) body with
  | none =>
    rw [afterFirst_of_none hf]
    rfl
  | some i =>
    obtain ⟨a,rest,hbody,hi,hafter⟩ := afterFirst_of_find hf
    have hsize : i+size (quote::key++[quote]) ≤ size body := by
      rw [hbody,hi,size_append a,size_append (quote::key++[quote]) rest]
      omega
    have hslice : sliceFrom body (i+size (quote::key++[quote]))=some rest := by
      rw [hbody,← List.append_assoc,hi,← size_append]
      exact sliceFrom_append _ _
    rw [hafter]
    simp only [add_eq (hsize.trans_lt h),hslice,Option.bind_eq_bind,Option.bind_some]
    cases stripPrefix colon (trimStart rest) with
    | none => rfl
    | some rest =>
      simp only [Option.bind_some]
      cases stripPrefix quote (trimStart rest) with
      | none => rfl
      | some rest =>
        simp only [Option.bind_some,find_char]
        by_cases hq : quote∈rest
        · have hcut : sliceTo rest (size (rest.takeWhile (fun c => c≠quote)))=some (rest.takeWhile (fun c => c≠quote)) := by
            have happ : rest.takeWhile (fun c => c≠quote)++rest.dropWhile (fun c => c≠quote)=rest :=
              List.takeWhile_append_dropWhile
            conv_lhs => rw [← happ]
            have hto := sliceTo_append (rest.takeWhile (fun c => c≠quote)) (rest.dropWhile (fun c => c≠quote))
            rw [happ] at hto ⊢
            exact hto
          rw [if_pos hq,if_pos hq]
          simp only [hcut]
          rfl
        · rw [if_neg hq,if_neg hq]
          rfl

end Bodies

section Ids

theorem hexValue_lt {c : Char} (h : isHexDigit c=true) : hexValue c < 16 := by
  simp only [isHexDigit,decide_eq_true_eq] at h
  rw [hexValue]
  split_ifs <;> omega

theorem fromStrRadix16_pair {hi lo : Char} (hhi : isHexDigit hi=true) (hlo : isHexDigit lo=true) :
    fromStrRadix16 [hi,lo]=some (UInt8.ofNat (16*hexValue hi+hexValue lo)) := by
  have hplus : ¬([hi,lo] : List Char).head?=some plus := by
    intro h
    cases h
    revert hhi
    decide
  have hall : [hi,lo].all isHexDigit=true := by simp [hhi,hlo]
  have hlt : 16*hexValue hi+hexValue lo < 256 := by
    have h1 := hexValue_lt hhi
    have h2 := hexValue_lt hlo
    omega
  rw [fromStrRadix16]
  simp only [if_neg hplus]
  rw [if_neg (by simp [hall])]
  simp only [List.foldl_cons,List.foldl_nil,Nat.mul_zero,Nat.zero_add]
  rw [if_pos hlt]

theorem hexBytes_pair (hi lo : Char) (s : List Char) :
    Control.hexBytes (hi::lo::s)=UInt8.ofNat (16*hexValue hi+hexValue lo)::Control.hexBytes s := by
  rw [Control.hexBytes]

theorem first_pair {s : List Char} {k : Nat} (h : s.length=2*(k+1)) : ∃hi lo rest,s=hi::lo::rest ∧ rest.length=2*k := by
  obtain ⟨hi,s,rfl⟩ := List.exists_cons_of_length_pos (show 0 < s.length by omega)
  rw [List.length_cons] at h
  obtain ⟨lo,s,rfl⟩ := List.exists_cons_of_length_pos (show 0 < s.length by omega)
  rw [List.length_cons] at h
  exact ⟨hi,lo,s,rfl,by omega⟩

theorem hexBytes_append (k : Nat) (s t : List Char) (h : s.length=2*k) :
    Control.hexBytes (s++t)=Control.hexBytes s++Control.hexBytes t := by
  induction k generalizing s with
  | zero =>
    have hnil : s=[] := List.eq_nil_of_length_eq_zero h
    subst hnil
    simp [Control.hexBytes]
  | succ k ih =>
    obtain ⟨hi,lo,s,rfl,hs⟩ := first_pair h
    rw [List.cons_append,List.cons_append,hexBytes_pair,hexBytes_pair,ih s hs]
    rfl

/-- The loop over the pairs that are left writes their bytes behind the others. -/
theorem idLoop_eq (k i : Nat) (pre suf : List Char) (hpre : pre.length=2*i) (hsuf : suf.length=2*k)
    (hall : ∀c∈pre++suf,isHexDigit c=true) (hk : i+k ≤ 32) :
    idLoop (pre++suf) (List.range' i k) (Control.hexBytes pre++zeros k)=
      some (some (Control.hexBytes (pre++suf))) := by
  induction k generalizing i pre suf with
  | zero =>
    have hnil : suf=[] := List.eq_nil_of_length_eq_zero hsuf
    subst hnil
    simp [idLoop,zeros]
  | succ k ih =>
    obtain ⟨hi,lo,suf,rfl,hsuf'⟩ := first_pair hsuf
    have hin : ∀c∈[hi,lo],c∈pre++hi::lo::suf := by
      intro c hc
      refine List.mem_append_right _ ?_
      simp only [List.mem_cons,List.not_mem_nil,or_false] at hc
      obtain rfl | rfl := hc
      · exact List.mem_cons_self
      · exact List.mem_cons_of_mem _ List.mem_cons_self
    have hhi := hall hi (hin hi (by simp))
    have hlo := hall lo (hin lo (by simp))
    have hsize : size pre=2*i := by
      rw [← hpre]
      exact size_eq_length (fun c hc => Control.utf8Size_digit (hall c (List.mem_append_left _ hc)))
    have htwo : size [hi,lo]=2 := by rw [size_cons,size_cons,size_nil,Control.utf8Size_digit hhi,Control.utf8Size_digit hlo]
    have hslice := slice_append pre [hi,lo] suf
    rw [hsize,htwo] at hslice
    have hmul : mul 2 i=some (2*i) := mul_eq (by rw [wordLimit]; omega)
    have hadd : add (2*i) 2=some (2*i+2) := add_eq (by rw [wordLimit]; omega)
    have hlen : (Control.hexBytes pre).length=i := by
      rw [Control.hexBytes_length,hpre]
      omega
    have hset : setAt (Control.hexBytes pre++zeros (k+1)) i (UInt8.ofNat (16*hexValue hi+hexValue lo))=
        some (Control.hexBytes (pre++[hi,lo])++zeros k) := by
      rw [setAt,if_pos (by rw [List.length_append,hlen,zeros,List.length_replicate]; omega),
        hexBytes_append i pre [hi,lo] hpre,hexBytes_pair,List.set_append_right _ _ hlen.le,hlen,Nat.sub_self,
        List.append_assoc]
      simp [zeros,Control.hexBytes,List.replicate_succ]
    rw [List.range'_succ,idLoop]
    have hcat : pre++hi::lo::suf=pre++([hi,lo]++suf) := rfl
    rw [hcat] at hall ⊢
    simp only [hmul,hadd,hslice,Option.bind_eq_bind,Option.bind_some,fromStrRadix16_pair hhi hlo,hset]
    have hpre' : (pre++[hi,lo]).length=2*(i+1) := by
      rw [List.length_append,hpre]
      rfl
    have hnext := ih (i+1) (pre++[hi,lo]) suf hpre' hsuf' (by rwa [List.append_assoc]) (by omega)
    rwa [List.append_assoc] at hnext

theorem parseIdHex_eq (hex : List Char) : parseIdHex hex=some (Control.parseIdHex hex) := by
  have hsize : size hex=(Control.utf8 hex).length := size_eq_utf8 hex
  rw [parseIdHex,Control.parseIdHex,hsize]
  by_cases hbad : (Control.utf8 hex).length≠idHexLen ∨ isHex hex=false
  · rw [if_pos hbad,if_pos hbad]
  · rw [if_neg hbad,if_neg hbad]
    rw [not_or,not_not,Bool.not_eq_false] at hbad
    obtain ⟨hlen,hhex⟩ := hbad
    rw [isHex,Bool.and_eq_true,List.all_eq_true] at hhex
    have hdigits : hex.length=2*32 := by
      rw [← size_eq_length (fun c hc => Control.utf8Size_digit (hhex.2 c hc)),hsize,hlen]
      rfl
    have hloop := idLoop_eq 32 0 [] hex rfl hdigits hhex.2 le_rfl
    rw [← List.range_eq_range'] at hloop
    simpa [Control.hexBytes] using hloop

theorem idKeyOf_eq {idBytes : Bytes} (h : idBytes.length=32) : idKeyOf idBytes=some (fixed 16 (idBytes.take lenIntentId)) := by
  have hle : lenIntentId ≤ idBytes.length := by rw [h]; decide
  have htake : (idBytes.take lenIntentId).length=16 := by
    rw [List.length_take,h]
    rfl
  rw [idKeyOf,range_front hle]
  simp only [Option.bind_eq_bind,Option.bind_some]
  exact exact_fixed htake

end Ids

section Reads

variable {α β : Type}

/-- A reader that does not panic. -/
def calm (o : Option α) : OptionT Option α := OptionT.mk (some o)

theorem calm_bind (o : Option α) (f : α → OptionT Option β) (g : α → Option β) (h : ∀a,o=some a → f a=calm (g a)) :
    (calm o>>=f)=calm (o>>=g) := by
  cases o with
  | none => rfl
  | some a => exact h a rfl

theorem calm_guard (c : Prop) [Decidable c] : (guard c : OptionT Option Unit)=calm (guard c) := by
  by_cases h : c
  · simp only [guard,if_pos h]
    rfl
  · simp only [guard,if_neg h]
    rfl

/-- No body makes the checks panic. -/
theorem readPosted_eq (body : List Char) : readPosted body=calm (Control.readPosted body) := by
  have hsize : ∀s,(Control.utf8 s).length=size s := fun s => (size_eq_utf8 s).symm
  rw [readPosted,Control.readPosted]
  simp only [hsize]
  rw [calm_guard]
  refine calm_bind _ _ _ (fun _ hbody => ?_)
  have hle : size body ≤ bodyMax := by
    by_contra hno
    rw [guard,if_neg hno] at hbody
    cases hbody
  have hlt : size body < wordLimit := by
    rw [bodyMax] at hle
    rw [wordLimit]
    omega
  simp only [flatJsonGet_eq hlt,parseIdHex_eq]
  refine calm_bind _ _ _ (fun id _ => ?_)
  refine calm_bind _ _ _ (fun resource _ => ?_)
  refine calm_bind _ _ _ (fun action _ => ?_)
  rw [calm_guard]
  refine calm_bind _ _ _ (fun _ _ => ?_)
  refine calm_bind _ _ _ (fun _ _ => ?_)
  refine calm_bind _ _ _ (fun subject _ => ?_)
  rw [calm_guard]
  refine calm_bind _ _ _ (fun _ _ => ?_)
  refine calm_bind _ _ _ (fun idBytes hid => ?_)
  rw [idKeyOf_eq (Control.parseIdHex_length hid)]
  rfl

end Reads

section Posts

variable {r : Resolver} {t : Table} {metrics : Metrics} {ring : EventRing} {now : UInt64} {body : List Char}

/-- The table admits what the body asks for. -/
def Accepts (body : List Char) (r : Resolver) (t : Table) : Prop :=
  ∃p canonical,Control.readPosted body=some p ∧ Admissible r t p.intentId p.resource canonical

/-- A counter is at its last value. -/
def AtLimit (metrics : Metrics) (ring : EventRing) : Prop :=
  wordLimit ≤ metrics.admittedTotal+1 ∨ wordLimit ≤ ring.nextSeq+1

theorem publish_full {ring : EventRing} (h : ¬ring.nextSeq+1 < wordLimit) (tag : Control.EventTag) :
    publish ring tag=none := by
  rw [publish,add,if_neg h]
  rfl

theorem postIntent_accepts (hf : Fits r) (ha : Accepts body r t) : postIntent body r t metrics ring now=
    do
      let admittedTotal ← add metrics.admittedTotal 1
      let ring ← publish ring .IntentAdmitted
      let (_,table,_,_) := Control.postIntent body r t metrics ring now
      return (.ok .Accepted,table,⟨admittedTotal⟩,ring) := by
  obtain ⟨p,canonical,hp,ha⟩ := ha
  obtain ⟨hok,_⟩ := resolveAndAdmit_of_admissible now ha
  rw [postIntent,readPosted_eq,hp]
  simp only [calm,OptionT.run,OptionT.mk,Option.bind_eq_bind,Option.bind_some,resolveAndAdmit_eq hf,Control.postIntent,hp]
  cases hr : r.resolveAndAdmit t p.intentId p.resource now with
  | mk res table =>
    rw [hr] at hok
    cases hok
    rfl

/-- An intent that is accepted while a counter is at its limit makes the node panic. -/
theorem postIntent_panics (hf : Fits r) (ha : Accepts body r t) (hl : AtLimit metrics ring) :
    postIntent body r t metrics ring now=none := by
  rw [postIntent_accepts hf ha]
  by_cases hm : metrics.admittedTotal+1 < wordLimit
  · have hring : ¬ring.nextSeq+1 < wordLimit := by
      obtain hl | hl := hl
      · omega
      · omega
    simp only [add_eq hm,publish_full hring,Option.bind_eq_bind,Option.bind_some,Option.bind_none]
  · simp only [add,if_neg hm,Option.bind_eq_bind,Option.bind_none]

/-- Every other post ends as `post_intent` does. -/
theorem postIntent_eq (hf : Fits r) (h : ¬(Accepts body r t ∧ AtLimit metrics ring)) :
    postIntent body r t metrics ring now=some (Control.postIntent body r t metrics ring now) := by
  by_cases ha : Accepts body r t
  · have hl : ¬AtLimit metrics ring := fun hl => h ⟨ha,hl⟩
    rw [AtLimit,not_or,Nat.not_le,Nat.not_le] at hl
    obtain ⟨hm,hring⟩ := hl
    obtain ⟨p,canonical,hp,ha⟩ := ha
    obtain ⟨hok,_⟩ := resolveAndAdmit_of_admissible now ha
    rw [postIntent,readPosted_eq,hp]
    simp only [calm,OptionT.run,OptionT.mk,Option.bind_eq_bind,Option.bind_some,resolveAndAdmit_eq hf,
      Control.postIntent,hp]
    cases hr : r.resolveAndAdmit t p.intentId p.resource now with
    | mk res table =>
      rw [hr] at hok
      cases hok
      simp only [add_eq hm,publish_eq hring,Option.bind_some]
      rfl
  · rw [postIntent,readPosted_eq,Control.postIntent]
    simp only [calm,OptionT.run,OptionT.mk,Option.bind_eq_bind,Option.bind_some]
    cases hp : Control.readPosted body with
    | none => rfl
    | some p =>
      obtain ⟨e,he⟩ := resolveAndAdmit_of_not_admissible now (fun c hc => ha ⟨p,c,hp,hc⟩)
      simp only [resolveAndAdmit_eq hf,he,Option.bind_some]
      split_ifs <;> rfl

/-- A post returns; it changes nothing, or it puts one pending entry into the table, counts it and
publishes it. -/
def AllOrNothing (body : List Char) (r : Resolver) (t : Table) (metrics : Metrics) (ring : EventRing)
    (now : UInt64) : Prop :=
  ∃res t' metrics' ring',postIntent body r t metrics ring now=some (res,t',metrics',ring') ∧
    (res≠.ok .Accepted → t'=t ∧ metrics'=metrics ∧ ring'=ring) ∧
    (res=.ok .Accepted → ∃id p canonical e,Control.postedId body=some id ∧ Control.readPosted body=some p ∧
      r.resolve p.resource=.ok canonical ∧ e.state=.Pending ∧ e.intentId=Control.keyOf id ∧ e.resource=canonical ∧
        t'.entries=t.entries++[e] ∧ metrics'.admittedTotal=metrics.admittedTotal+1 ∧
          ring'=ring.publish .IntentAdmitted)

theorem allOrNothing_iff (hf : Fits r) :
    AllOrNothing body r t metrics ring now ↔ ¬(Accepts body r t ∧ AtLimit metrics ring) := by
  constructor
  · intro h hbad
    obtain ⟨_,_,_,_,hret,_⟩ := h
    rw [postIntent_panics hf hbad.1 hbad.2] at hret
    cases hret
  · intro h
    have hret : postIntent body r t metrics ring now=some (Control.postIntent body r t metrics ring now) :=
      postIntent_eq hf h
    have hpost := Control.postIntent_posting body r t metrics ring now
    generalize Control.postIntent body r t metrics ring now=res at hret hpost
    cases hpost with
    | accepted p canonical hp ha t' ht =>
      obtain ⟨id,hid,hk⟩ := Control.readPosted_id hp
      refine ⟨_,_,_,_,hret,fun hno => absurd rfl hno,fun _ => ?_⟩
      exact ⟨id,p,canonical,_,hid,hp,ha.resolves,rfl,hk,admittedEntry_resource _ _ _ _,ht,rfl,rfl⟩
    | idempotent p canonical hp hr hfits hdup =>
      exact ⟨_,_,_,_,hret,fun _ => ⟨rfl,rfl,rfl⟩,fun hno => (by cases hno)⟩
    | refused e hnew => exact ⟨_,_,_,_,hret,fun _ => ⟨rfl,rfl,rfl⟩,fun hno => (by cases hno)⟩

end Posts

/-- With a resolver of any declarations a post is all or nothing exactly if it is not accepted while a
counter is at its limit. -/
theorem post_all_or_nothing_iff (K : Codec.Crypto) (sigPubkey : Bytes) (ds : List Declaration) (body : List Char)
    (t : Table) (metrics : Metrics) (ring : EventRing) (now : UInt64) :
    AllOrNothing body (ds.foldl Resolver.declare (Resolver.new K sigPubkey)) t metrics ring now ↔
      ¬(Accepts body (ds.foldl Resolver.declare (Resolver.new K sigPubkey)) t ∧ AtLimit metrics ring) :=
  allOrNothing_iff (fits_declared K sigPubkey ds)

/-- The count of accepted intents at its last value. -/
theorem last_admission_panics : ¬AllOrNothing (Control.intentBody '1')
    ([Declaration.add sampleResource].foldl Resolver.declare (Resolver.new sampleCrypto nodeKey)) Table.new
      ⟨2^64-1⟩ EventRing.new 1000000 := by
  intro h
  obtain ⟨_,_,_,_,hret,_⟩ := h
  have hnone : (postIntent (Control.intentBody '1')
      ([Declaration.add sampleResource].foldl Resolver.declare (Resolver.new sampleCrypto nodeKey)) Table.new
        ⟨2^64-1⟩ EventRing.new 1000000).isNone=true := by decide +kernel
  rw [hret] at hnone
  cases hnone

end Bolina.Checked
