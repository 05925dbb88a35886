import Bolina.Evidence.ResolveClaim

namespace Bolina.Attest

open BigEndian
open Codec (Crypto verifySigned domainSpan)

/-- The maximum over the other ids, and over the one id where it is cited. -/
theorem sup_except (g : Bytes → Nat) (ids : List Bytes) (d : Bytes) :
    ids.toFinset.sup g=max ((ids.filter (· != d)).toFinset.sup g) (if d∈ids then g d else 0) := by
  apply le_antisymm
  · apply Finset.sup_le
    intro id hid
    rw [List.mem_toFinset] at hid
    by_cases h : id=d
    · rw [if_pos (h ▸ hid),h]
      exact le_max_right _ _
    · have hother : id∈(ids.filter (· != d)).toFinset := by simp [hid,h]
      exact (Finset.le_sup hother).trans (le_max_left _ _)
  · apply max_le
    · apply Finset.sup_mono
      intro id hid
      rw [List.mem_toFinset] at *
      exact (List.mem_filter.mp hid).1
    · split_ifs with hd
      · exact Finset.le_sup (List.mem_toFinset.mpr hd)
      · exact Nat.zero_le _

theorem any_except (p : Bytes → Bool) (ids : List Bytes) (d : Bytes) :
    ids.any p=((ids.filter (· != d)).any p || (decide (d∈ids) && p d)) := by
  rw [Bool.eq_iff_iff]
  simp only [List.any_eq_true,Bool.or_eq_true,Bool.and_eq_true,decide_eq_true_iff,List.mem_filter,bne_iff_ne]
  constructor
  · intro h
    obtain ⟨id,hid,hp⟩ := h
    by_cases h : id=d
    · exact .inr ⟨h ▸ hid,h ▸ hp⟩
    · exact .inl ⟨id,⟨hid,h⟩,hp⟩
  · intro h
    obtain ⟨id,⟨hid,_⟩,hp⟩ | ⟨hd,hp⟩ := h
    · exact ⟨id,hid,hp⟩
    · exact ⟨d,hd,hp⟩

theorem matchSpan_append (a b : List Span) (id : Bytes) :
    matchSpan (a++b) id=(matchSpan a id).or (matchSpan b id) := List.find?_append

theorem matchSpan_insert (a b : List Span) (f : Span) {id : Bytes} (h : id≠f.spanId) :
    matchSpan (a++f::b) id=matchSpan (a++b) id := by
  have hne : (f.spanId == id)=false := by simpa using h.symm
  rw [matchSpan_append,matchSpan_append,matchSpan,matchSpan,matchSpan,List.find?_cons,hne]

theorem matchSpan_insert_self (a b : List Span) (f : Span) :
    matchSpan (a++f::b) f.spanId=(matchSpan a f.spanId).or (some f) := by
  rw [matchSpan_append]
  congr 1
  rw [matchSpan,List.find?_cons,beq_self_eq_true]

section Forged

variable (K : Crypto) (claim : Claim) (a b : List Span) (f : Span) (ctx : ResolveContext) (claimEnvelope : Bytes)

/-- Where the span takes the place of a later one of its id, another citation
makes up for what that one brings in. -/
def Unharmed : Prop := f.spanId∈claim.cited → matchSpan a f.spanId=none → ∀m,matchSpan b f.spanId=some m →
  (pends K claim ctx m=true → ∃id∈claim.cited,id≠f.spanId ∧
    ∃s,matchSpan (a++b) id=some s ∧ pends K claim ctx s=true) ∧
  (supports K claim ctx claimEnvelope m=true → ∃id∈claim.cited,id≠f.spanId ∧
    ∃s,matchSpan (a++b) id=some s ∧ supports K claim ctx claimEnvelope s=true ∧
      (ceilingQ8 (classOf m.methodId) ≤ ceilingQ8 (classOf s.methodId) ∨
        claim.confidenceQ8 ≤ ceilingQ8 (classOf s.methodId)))

variable {K claim a b f ctx claimEnvelope}

theorem ceilingQ8_le (c : EvidenceClass) : (ceilingQ8 c).toNat ≤ 242 := by
  cases c <;> decide

theorem brings_le (spans : List Span) (id : Bytes) : brings K claim spans ctx claimEnvelope id ≤ 242 := by
  rw [brings]
  cases hm : matchSpan spans id with
  | none => exact Nat.zero_le _
  | some s =>
    dsimp only
    split_ifs
    · exact ceilingQ8_le _
    · exact Nat.zero_le _

theorem strongest_le (spans : List Span) (ids : List Bytes) :
    strongest K claim spans ctx claimEnvelope ids ≤ 242 :=
  Finset.sup_le (fun id _ => brings_le spans id)

/-- What one more ceiling and one more pending span leave as they are. -/
theorem verdictOf_max (statedQ8 : UInt8) {t c : Nat} {p q : Bool} (ht : t ≤ 242) (hc : c ≤ 242) :
    verdictOf statedQ8 t p=verdictOf statedQ8 (max t c) (p || q) ↔
      (q=true → p=true) ∧ (0 < c → 0 < t ∧ (c ≤ t ∨ statedQ8.toNat ≤ t)) := by
  have hflag : p=(p || q) ↔ (q=true → p=true) := by cases p <;> cases q <;> simp
  rw [verdictOf,verdictOf]
  by_cases hpos : 0 < t
  · have hmin : UInt8.ofNat (min statedQ8.toNat t)=UInt8.ofNat (min statedQ8.toNat (max t c)) ↔
        c ≤ t ∨ statedQ8.toNat ≤ t := by
      rw [← UInt8.toNat_inj,UInt8.toNat_ofNat_of_lt' (by rw [UInt8.size]; omega),
        UInt8.toNat_ofNat_of_lt' (by rw [UInt8.size]; omega)]
      omega
    rw [if_pos hpos,if_pos (lt_of_lt_of_le hpos (le_max_left t c)),Verdict.supported.injEq,hmin,hflag]
    constructor
    · intro h
      exact ⟨h.2,fun _ => ⟨hpos,h.1⟩⟩
    · intro h
      obtain ⟨hq,hle⟩ := h
      refine ⟨?_,hq⟩
      obtain rfl | hcpos := Nat.eq_zero_or_pos c
      · exact .inl hpos.le
      · exact (hle hcpos).2
  · obtain rfl : t=0 := Nat.eq_zero_of_not_pos hpos
    obtain rfl | hcpos := Nat.eq_zero_or_pos c
    · rw [if_neg hpos,max_self,if_neg hpos,← hflag]
      cases p <;> cases q <;> simp
    · rw [if_neg hpos,Nat.zero_max,if_pos hcpos]
      constructor
      · intro h
        split_ifs at h
      · intro h
        exact absurd (h.2 hcpos).1 hpos

theorem brings_insert {id : Bytes} (h : id≠f.spanId) :
    brings K claim (a++f::b) ctx claimEnvelope id=brings K claim (a++b) ctx claimEnvelope id := by
  rw [brings,brings,matchSpan_insert a b f h]

theorem found_insert (P : Span → Bool) {id : Bytes} (h : id≠f.spanId) : found (a++f::b) P id=found (a++b) P id := by
  rw [found,found,matchSpan_insert a b f h]

/-- The verdict from the other ids, and from what the one id brings in. -/
theorem verdict_except (spans : List Span) (d : Bytes) : (resolveClaim K claim spans ctx claimEnvelope).verdict=
    verdictOf claim.confidenceQ8
      (max (strongest K claim spans ctx claimEnvelope (claim.cited.filter (· != d)))
        (if d∈claim.cited then brings K claim spans ctx claimEnvelope d else 0))
      ((claim.cited.filter (· != d)).any (found spans (pends K claim ctx)) ||
        (decide (d∈claim.cited) && found spans (pends K claim ctx) d)) := by
  rw [resolveClaim_verdict,strongest,sup_except _ _ d,any_except _ _ d]
  rfl

/-- The other ids are not touched by the span. -/
theorem strongest_insert : strongest K claim (a++f::b) ctx claimEnvelope (claim.cited.filter (· != f.spanId))=
    strongest K claim (a++b) ctx claimEnvelope (claim.cited.filter (· != f.spanId)) := by
  apply Finset.sup_congr rfl
  intro id hid
  have hne : id≠f.spanId := by simpa using (List.mem_filter.mp (List.mem_toFinset.mp hid)).2
  exact brings_insert hne

theorem any_insert (P : Span → Bool) : (claim.cited.filter (· != f.spanId)).any (found (a++f::b) P)=
    (claim.cited.filter (· != f.spanId)).any (found (a++b) P) := by
  rw [Bool.eq_iff_iff,List.any_eq_true,List.any_eq_true]
  constructor <;>
  · intro h
    obtain ⟨id,hid,hp⟩ := h
    have hne : id≠f.spanId := by simpa using (List.mem_filter.mp hid).2
    refine ⟨id,hid,?_⟩
    simpa only [found_insert P hne] using hp

theorem not_supports (hf : spanSupportable K f ctx=false) : supports K claim ctx claimEnvelope f=false := by
  rw [supports,qualifies,hf,Bool.false_and,Bool.false_and,Bool.false_and]

theorem not_pends (hf : spanSupportable K f ctx=false) : pends K claim ctx f=false := by
  rw [pends,qualifies,hf,Bool.false_and,Bool.false_and]

theorem mem_others {id d : Bytes} : id∈claim.cited.filter (· != d) ↔ id∈claim.cited ∧ id≠d := by
  rw [List.mem_filter,bne_iff_ne]

/-- The span in the place of a later one: what that one brings in is gone. -/
theorem shadowed_iff {m : Span} (hf : spanSupportable K f ctx=false) (hcited : f.spanId∈claim.cited)
    (ha : matchSpan a f.spanId=none) (hm : matchSpan b f.spanId=some m) :
    (resolveClaim K claim (a++f::b) ctx claimEnvelope).verdict=(resolveClaim K claim (a++b) ctx claimEnvelope).verdict ↔
      (pends K claim ctx m=true → ∃id∈claim.cited,id≠f.spanId ∧
        ∃s,matchSpan (a++b) id=some s ∧ pends K claim ctx s=true) ∧
      (supports K claim ctx claimEnvelope m=true → ∃id∈claim.cited,id≠f.spanId ∧
        ∃s,matchSpan (a++b) id=some s ∧ supports K claim ctx claimEnvelope s=true ∧
          (ceilingQ8 (classOf m.methodId) ≤ ceilingQ8 (classOf s.methodId) ∨
            claim.confidenceQ8 ≤ ceilingQ8 (classOf s.methodId))) := by
  have hfront : matchSpan (a++f::b) f.spanId=some f := by rw [matchSpan_insert_self,ha,Option.none_or]
  have hback : matchSpan (a++b) f.spanId=some m := by rw [matchSpan_append,ha,Option.none_or,hm]
  have hzero : brings K claim (a++f::b) ctx claimEnvelope f.spanId=0 := by simp [brings,hfront,not_supports hf]
  have hno : found (a++f::b) (pends K claim ctx) f.spanId=false := by simp [found,hfront,not_pends hf]
  have hyes : found (a++b) (pends K claim ctx) f.spanId=pends K claim ctx m := by simp [found,hback]
  rw [verdict_except (a++f::b) f.spanId,verdict_except (a++b) f.spanId,if_pos hcited,if_pos hcited,hzero,hno,hyes,
    strongest_insert,any_insert,Nat.max_zero,Bool.and_false,Bool.or_false,decide_eq_true hcited,Bool.true_and,
    verdictOf_max _ (strongest_le _ _) (brings_le _ _)]
  apply and_congr
  · apply imp_congr_right
    intro _
    rw [any_found]
    simp only [mem_others,and_assoc]
  · have hsup : 0 < brings K claim (a++b) ctx claimEnvelope f.spanId ↔ supports K claim ctx claimEnvelope m=true := by
      rw [brings_pos,hback]
      simp
    rw [hsup]
    apply imp_congr_right
    intro hs
    rw [brings_of_supports hback hs]
    constructor
    · intro h
      obtain ⟨hpos,hle⟩ := h
      obtain ⟨id,hid,hmax⟩ := strongest_attained hpos
      obtain ⟨s,hms,hsup⟩ := brings_pos.mp (hmax ▸ hpos)
      obtain ⟨hid,hne⟩ := mem_others.mp hid
      rw [← hmax,brings_of_supports hms hsup] at hle
      exact ⟨id,hid,hne,s,hms,hsup,by rwa [UInt8.le_iff_toNat_le,UInt8.le_iff_toNat_le]⟩
    · intro h
      obtain ⟨id,hid,hne,s,hms,hsup,hle⟩ := h
      rw [UInt8.le_iff_toNat_le,UInt8.le_iff_toNat_le] at hle
      have htop : (ceilingQ8 (classOf s.methodId)).toNat ≤
          strongest K claim (a++b) ctx claimEnvelope (claim.cited.filter (· != f.spanId)) := by
        rw [← brings_of_supports hms hsup]
        exact brings_le_strongest (mem_others.mpr ⟨hid,hne⟩)
      have hpos : 0 < (ceilingQ8 (classOf s.methodId)).toNat := ceilingQ8_pos _
      exact ⟨hpos.trans_le htop,hle.imp (fun h => h.trans htop) (fun h => h.trans htop)⟩

/-- A span that is not cited, or not the first of its id, or the only one of
it, changes nothing. -/
theorem unshadowed (hf : spanSupportable K f ctx=false)
    (h : f.spanId∉claim.cited ∨ matchSpan a f.spanId≠none ∨ matchSpan b f.spanId=none) :
    (resolveClaim K claim (a++f::b) ctx claimEnvelope).verdict=
      (resolveClaim K claim (a++b) ctx claimEnvelope).verdict := by
  rw [verdict_except (a++f::b) f.spanId,verdict_except (a++b) f.spanId,strongest_insert,any_insert]
  obtain hcited | ha | hb := h
  · rw [if_neg hcited,if_neg hcited,decide_eq_false hcited,Bool.false_and,Bool.false_and]
  · obtain ⟨s,hs⟩ := Option.ne_none_iff_exists'.mp ha
    have hfront : matchSpan (a++f::b) f.spanId=some s := by rw [matchSpan_insert_self,hs,Option.some_or]
    have hback : matchSpan (a++b) f.spanId=some s := by rw [matchSpan_append,hs,Option.some_or]
    rw [brings,brings,found,found,hfront,hback]
  · cases ha : matchSpan a f.spanId with
    | some s =>
      have hfront : matchSpan (a++f::b) f.spanId=some s := by rw [matchSpan_insert_self,ha,Option.some_or]
      have hback : matchSpan (a++b) f.spanId=some s := by rw [matchSpan_append,ha,Option.some_or]
      rw [brings,brings,found,found,hfront,hback]
    | none =>
      have hfront : matchSpan (a++f::b) f.spanId=some f := by rw [matchSpan_insert_self,ha,Option.none_or]
      have hback : matchSpan (a++b) f.spanId=none := by rw [matchSpan_append,ha,hb,Option.none_or]
      simp [brings,found,hfront,hback,not_supports hf,not_pends hf]

end Forged

theorem forged_span_iff (K : Crypto) (claim : Claim) (a b : List Span) (f : Span) (ctx : ResolveContext)
    (claimEnvelope : Bytes) (hf : spanSupportable K f ctx=false) :
    (resolveClaim K claim (a++f::b) ctx claimEnvelope).verdict=(resolveClaim K claim (a++b) ctx claimEnvelope).verdict ↔
      Unharmed K claim a b f ctx claimEnvelope := by
  by_cases hcited : f.spanId∈claim.cited
  · cases ha : matchSpan a f.spanId with
    | some s =>
      have hclear : matchSpan a f.spanId≠none := by simp [ha]
      refine ⟨fun _ _ hnone => absurd hnone hclear,fun _ => unshadowed hf (.inr (.inl hclear))⟩
    | none =>
      cases hb : matchSpan b f.spanId with
      | none =>
        refine ⟨fun _ _ _ m hm => ?_,fun _ => unshadowed hf (.inr (.inr hb))⟩
        exact absurd (hb.symm.trans hm) (Option.some_ne_none m).symm
      | some m =>
        rw [shadowed_iff hf hcited ha hb]
        constructor
        · intro h _ _ m' hm'
          obtain rfl := Option.some.inj (hb.symm.trans hm')
          exact h
        · intro h
          exact h hcited ha m hb
  · exact ⟨fun _ h => absurd h hcited,fun _ => unshadowed hf (.inl hcited)⟩

/-- A copy of the signed span without its signature. -/
def forgedSpan : Span := { signedSpan with sig := List.replicate 64 0 }

/-- The executor that the certificate names does not verify the copy, and the
copy in front takes the support away. -/
theorem forged_span_unsupports : spanSupportable attestCrypto forgedSpan attestContext=false ∧
    (resolveClaim attestCrypto citingClaim [signedSpan] attestContext []).verdict=.supported 230 false ∧
    (resolveClaim attestCrypto citingClaim [forgedSpan,signedSpan] attestContext []).verdict=.unsupported := by
  decide

theorem forged_span_iff_sample : spanSupportable attestCrypto forgedSpan attestContext=false ∧
    ((resolveClaim attestCrypto citingClaim ([signedSpan]++forgedSpan::[]) attestContext []).verdict=
        (resolveClaim attestCrypto citingClaim ([signedSpan]++[]) attestContext []).verdict ↔
      Unharmed attestCrypto citingClaim [signedSpan] [] forgedSpan attestContext []) :=
  have hf : spanSupportable attestCrypto forgedSpan attestContext=false := by decide
  ⟨hf,forged_span_iff attestCrypto citingClaim [signedSpan] [] forgedSpan attestContext [] hf⟩

end Bolina.Attest
