import Bolina.Control.RouteHttp

namespace Bolina.Control

open ListSearch Utf8

section Cuts

variable {buf : Bytes} {headEnd : Nat}

/-- Behind its terminator a head is read no further. -/
theorem parse_append (h : findSub terminator buf=some headEnd) (x : Bytes) : parse (buf++x)=parse buf := by
  have hle : headEnd+terminator.length ≤ buf.length := findSub_le h
  have happ : findSub terminator (buf++x)=some headEnd := (findSub_append x hle).mpr h
  have hhead : (buf++x).take headEnd=buf.take headEnd := List.take_append_of_le_length (by omega)
  rw [parse,parse]
  simp only [happ,h,hhead]

theorem parse_unterminated (h : findSub terminator buf=none) :
    parse buf=if headerCap < buf.length then .error .HeadersTooLarge else .error .Incomplete := by
  rw [parse,h]

theorem parse_large (h : findSub terminator buf=none) (hlong : headerCap < buf.length) :
    parse buf=.error .HeadersTooLarge := by
  rw [parse_unterminated h,if_pos hlong]

/-- Without a terminator the only verdict is on the size. -/
theorem large_of_verdict (h : findSub terminator buf=none) (hverdict : parse buf≠.error .Incomplete) :
    headerCap < buf.length := by
  by_contra hshort
  rw [parse_unterminated h,if_neg hshort] at hverdict
  exact hverdict rfl

/-- A head that has ended is not refused for its size. -/
theorem parse_terminated (h : findSub terminator buf=some headEnd) : parse buf≠.error .HeadersTooLarge := by
  rw [parse,h]
  dsimp only
  split
  · simp
  · split
    · simp
    · split_ifs <;> simp

/-- The terminator of a stream is the one of every cut that holds it. -/
theorem findSub_cut {x : Bytes} (h : findSub terminator (buf++x)=some headEnd)
    (hle : headEnd+terminator.length ≤ buf.length) : findSub terminator buf=some headEnd :=
  (findSub_append x hle).mp h

/-- A cut that lacks the last byte of the terminator holds none. -/
theorem findSub_before (h : findSub terminator buf=some headEnd) :
    findSub terminator (buf.take (headEnd+3))=none := by
  have hfour : terminator.length=4 := rfl
  cases hc : findSub terminator (buf.take (headEnd+3)) with
  | none => rfl
  | some k =>
    have hk : k+terminator.length ≤ (buf.take (headEnd+3)).length := findSub_le hc
    have hsame : findSub terminator buf=some k := by
      rw [← List.take_append_drop (headEnd+3) buf]
      exact (findSub_append _ hk).mpr hc
    rw [h] at hsame
    cases hsame
    rw [List.length_take] at hk
    omega

end Cuts

/-- Every cut of a stream that has a verdict has the verdict of the stream, and a head that
is accepted is within the cap. -/
structure Final (stream : Bytes) : Prop where
  cuts : ∀buf x,stream=buf++x → parse buf≠.error .Incomplete → parse stream=parse buf
  head : ∀req,parse stream=.ok req → (headOf stream).length ≤ headerCap

/-- Exactly the streams whose head ends before a cut above the cap can be made inside it. -/
theorem final_iff (stream : Bytes) :
    Final stream ↔ ∀headEnd,findSub terminator stream=some headEnd → headEnd+3 ≤ headerCap := by
  constructor
  · intro h headEnd hend
    by_contra hbig
    have hle : headEnd+terminator.length ≤ stream.length := findSub_le hend
    have hfour : terminator.length=4 := rfl
    have hlong : headerCap < (stream.take (headEnd+3)).length := by
      rw [List.length_take]
      omega
    have hlarge := parse_large (findSub_before hend) hlong
    have hsame := h.cuts _ _ (List.take_append_drop (headEnd+3) stream).symm (by rw [hlarge]; simp)
    rw [hlarge] at hsame
    exact parse_terminated hend hsame
  · intro h
    constructor
    · intro buf x hs hverdict
      subst hs
      cases hc : findSub terminator buf with
      | some headEnd => exact parse_append hc x
      | none =>
        have hlong := large_of_verdict hc hverdict
        rw [parse_large hc hlong]
        cases hs : findSub terminator (buf++x) with
        | none =>
          apply parse_large hs
          rw [List.length_append]
          omega
        | some headEnd =>
          have hcap := h headEnd hs
          have hfour : terminator.length=4 := rfl
          rw [findSub_cut hs (by omega)] at hc
          cases hc
    · intro req hok
      obtain ⟨headEnd,line,declared,hp⟩ := parse_ok hok
      have hcap := h headEnd hp.ends
      rw [headOf_length hp.ends]
      omega

/-- A buffer has its last verdict when its head has ended or is within the cap, and then only. -/
theorem verdict_final_iff (buf : Bytes) : (parse buf≠.error .Incomplete → ∀x,parse (buf++x)=parse buf) ↔
    (∃headEnd,findSub terminator buf=some headEnd) ∨ buf.length ≤ headerCap := by
  cases hc : findSub terminator buf with
  | some headEnd =>
    have hfinal : ∀x,parse (buf++x)=parse buf := parse_append hc
    simp [hfinal]
  | none =>
    by_cases hlong : headerCap < buf.length
    · rw [parse_large hc hlong]
      have hmore : parse (buf++terminator)≠.error .HeadersTooLarge := by
        have hprefix : terminator <+: (buf++terminator).drop buf.length := by rw [List.drop_left]
        cases hm : findSub terminator (buf++terminator) with
        | none => exact absurd hprefix (findSub_none hm buf.length)
        | some headEnd => exact parse_terminated hm
      constructor
      · intro h
        exact absurd (h (by simp) terminator) hmore
      · intro h
        cases h with
        | inl hsome =>
          obtain ⟨headEnd,he⟩ := hsome
          cases he
        | inr hle => omega
    · constructor
      · intro _
        exact .inr (Nat.le_of_not_lt hlong)
      · intro _ hverdict
        exact absurd (large_of_verdict hc hverdict) hlong

/-- A request line that is longer than the cap of the head. -/
def longLine : Bytes := getLine (List.replicate 8200 0x61)

/-- The line alone is refused for its size; with its terminator it is accepted. -/
theorem long_line_accepted : parse longLine=.error .HeadersTooLarge ∧
    parse (longLine++terminator)=.ok ⟨.Get,4,8204,none,0,8217⟩ ∧ ¬Final (longLine++terminator) := by
  have hlen : longLine.length=8213 := by rw [longLine,getLine_length,List.length_replicate]
  have hvisible : ∀b∈List.replicate 8200 (0x61 : UInt8),¬b < 0x21 := by
    intro b hb
    rw [(List.mem_replicate.mp hb).2]
    decide
  have hq : (List.replicate 8200 (0x61 : UInt8)).idxOf? questionMark=none := by
    rw [List.idxOf?_eq_none_iff,List.mem_replicate]
    intro h
    exact absurd h.2 (by decide)
  have haccepted : parse (longLine++terminator)=.ok ⟨.Get,4,8204,none,0,8217⟩ := by
    have hget := parse_getLine hvisible
    rw [hq,Option.getD_none,Option.map_none,List.length_replicate] at hget
    change parse (longLine++terminator)=.ok ⟨.Get,4,8204,none,0,longLine.length+4⟩ at hget
    rw [hlen] at hget
    exact hget
  have hcr : cr∉longLine := getLine_noCr (fun hm => hvisible cr hm (by decide))
  have hnone : findSub terminator longLine=none := findSub_absent cr hcr
  have hlarge : parse longLine=.error .HeadersTooLarge := parse_large hnone (by rw [hlen]; decide)
  refine ⟨hlarge,haccepted,?_⟩
  intro h
  have hsame := h.cuts longLine terminator rfl (by rw [hlarge]; simp)
  rw [hlarge,haccepted] at hsame
  cases hsame

end Bolina.Control
