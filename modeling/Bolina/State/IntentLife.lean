import Bolina.State.Intent

namespace Bolina.Intent

open Codec

/-- What an admission asks of the table. -/
structure Table.Takes (t : Table) (intentId : FixedBytes 16) (resource : Bytes) : Prop where
  free : t.entries.any (Entry.pendingFor intentId)=false
  unheld : t.entries.any (Entry.holds resource)=false
  room : t.entries.length < maxPending

section Admit

variable (t : Table) (intentId : FixedBytes 16) (resource : FixedBytes 256) (resourceLen : Nat)
variable (hlen : resourceLen ≤ maxResource) (nowMs : UInt64)

/-- The entry of an admission. -/
def admitted : Entry := ⟨intentId,resource,resourceLen,hlen,.Pending,nowMs⟩

theorem admit_of_takes (h : t.Takes intentId (resource.toList.take resourceLen)) :
    ( t.admit intentId resource resourceLen hlen nowMs).1=.ok () ∧
      ( t.admit intentId resource resourceLen hlen nowMs).2.entries=
        t.entries++[admitted intentId resource resourceLen hlen nowMs] := by
  have hfree : ¬t.entries.any (Entry.pendingFor intentId)=true := by simp [h.free]
  have hres : ¬t.entries.any (Entry.holds (admitted intentId resource resourceLen hlen nowMs).resource)=true := by
    have hu := h.unheld
    show ¬t.entries.any (Entry.holds (resource.toList.take resourceLen))=true
    simp [hu]
  have hroom : ¬maxPending ≤ t.entries.length := Nat.not_le.mpr h.room
  rw [admitted] at hres
  rw [ Table.admit]
  simp only [dif_neg hfree]
  rw [if_neg hres,if_neg hroom]
  exact ⟨rfl,rfl⟩

/-- A refused admission changes nothing. -/
theorem admit_of_not_takes (h : ¬t.Takes intentId (resource.toList.take resourceLen)) :
    ∃e, t.admit intentId resource resourceLen hlen nowMs=(.error e,t) := by
  rw [ Table.admit]
  by_cases hfree : t.entries.any (Entry.pendingFor intentId)=true
  · rw [dif_pos hfree]
    exact ⟨_,rfl⟩
  · rw [dif_neg hfree]
    by_cases hres : t.entries.any (Entry.holds (resource.toList.take resourceLen))=true
    · exact ⟨_,if_pos hres⟩
    · have hroom : maxPending ≤ t.entries.length := by
        by_contra hroom
        exact h ⟨by simpa using hfree,by simpa using hres,Nat.lt_of_not_le hroom⟩
      refine ⟨.TableFull,?_⟩
      exact (if_neg hres).trans (if_pos hroom)

end Admit

/-- A pending entry is the one of an admission, or it was pending before. -/
theorem pendingEntry_append (t t' : Table) (a : Entry) (ha : a.state=.Pending)
    (hfree : t.entries.any (Entry.pendingFor a.intentId)=false) (h : t'.entries=t.entries++[a])
    (j : FixedBytes 16) :
    t'.pendingEntry j=if j=a.intentId then some a else t.pendingEntry j := by
  rw [pendingEntry_eq_find,pendingEntry_eq_find,h,List.find?_append]
  by_cases hj : j=a.intentId
  · subst hj
    have hnone : t.entries.find? (Entry.pendingFor a.intentId)=none := by
      apply List.find?_eq_none.mpr
      intro e he hp
      rw [List.any_eq_false] at hfree
      exact hfree e he hp
    have hself : a.pendingFor a.intentId=true := decide_eq_true ⟨ha,rfl⟩
    rw [if_pos rfl,hnone,Option.none_or,List.find?_singleton,if_pos hself]
  · have hother : ¬a.pendingFor j=true := by
      intro hp
      exact hj (of_decide_eq_true hp).2.symm
    rw [if_neg hj,List.find?_singleton,if_neg hother,Option.or_none]

theorem matchForGrant_of_pending (t : Table) (intentId : FixedBytes 16) (e : Entry)
    (h : t.pendingEntry intentId=some e) : ∃idx,t.matchForGrant intentId=some idx ∧ t.entries[idx]?=some e := by
  rw [Table.pendingEntry,Option.bind_eq_some_iff] at h
  exact h

theorem matchForGrant_of_none (t : Table) (intentId : FixedBytes 16) (h : t.pendingEntry intentId=none) :
    t.matchForGrant intentId=none := by
  rw [pendingEntry_eq_find,List.find?_eq_none] at h
  rw [Table.matchForGrant,List.findIdx?_eq_none_iff]
  intro e he
  simpa using h e he

/-- Taking the entry at one position out of `Pending` leaves the others. -/
theorem mem_mark_pending (t : Table) (idx : Nat) (state : State) (hs : state≠.Pending) (e : Entry) :
    (e∈(t.mark idx state hs).entries ∧ e.state=.Pending) ↔
      ∃k,k≠idx ∧ t.entries[k]?=some e ∧ e.state=.Pending := by
  rw [List.mem_iff_getElem?]
  constructor
  · intro h
    obtain ⟨⟨k,hk⟩,hp⟩ := h
    rw [Table.mark,List.getElem?_modify] at hk
    by_cases he : idx=k
    · exfalso
      cases ht : t.entries[k]? with
      | none => simp [ht] at hk
      | some a =>
        rw [ht] at hk
        simp only [if_pos he,Option.map_eq_map,Option.map_some,Option.some.injEq] at hk
        rw [← hk] at hp
        exact hs hp
    · refine ⟨k,fun hne => he hne.symm,?_,hp⟩
      simpa [if_neg he] using hk
  · intro h
    obtain ⟨k,hne,hk,hp⟩ := h
    refine ⟨⟨k,?_⟩,hp⟩
    have he : ¬idx=k := fun he => hne he.symm
    rw [Table.mark,List.getElem?_modify]
    simp [hk,if_neg he]

/-- Two positions of the table do not hold one pending id. -/
theorem position_unique (t : Table) (k idx : Nat) (a b : Entry) (hk : t.entries[k]?=some a)
    (hi : t.entries[idx]?=some b) (ha : a.state=.Pending) (hb : b.state=.Pending)
    (hid : a.intentId=b.intentId) : k=idx := by
  obtain ⟨hkl,rfl⟩ := List.getElem?_eq_some_iff.mp hk
  obtain ⟨hil,rfl⟩ := List.getElem?_eq_some_iff.mp hi
  have hpw := List.pairwise_iff_getElem.mp t.unique
  by_contra hne
  obtain hlt|hgt := Nat.lt_or_gt_of_ne hne
  · exact hpw k idx hkl hil hlt ha hb hid
  · exact hpw idx k hil hkl hgt hb ha hid.symm

/-- A refusal takes the pending entry of its id away and no other. -/
theorem pendingEntry_applyRefusal (t : Table) (intentId : FixedBytes 16) (j : FixedBytes 16) :
    (t.applyRefusal intentId).2.pendingEntry j=if j=intentId then none else t.pendingEntry j := by
  rw [Table.applyRefusal]
  cases hp : t.pendingEntry intentId with
  | none =>
    rw [matchForGrant_of_none t intentId hp]
    show t.pendingEntry j=_
    by_cases hj : j=intentId
    · rw [if_pos hj,hj]
      exact hp
    · rw [if_neg hj]
  | some a =>
    obtain ⟨idx,hm,hidx⟩ := matchForGrant_of_pending t intentId a hp
    obtain ⟨_,hpa,hida⟩ := (pendingEntry_iff t intentId a).mp hp
    rw [hm]
    have hmem : ∀e,((t.mark idx .Rejected (by simp)).compact.pendingEntry j=some e) ↔
        t.pendingEntry j=some e ∧ j≠intentId := by
      intro e
      rw [pendingEntry_iff,pendingEntry_iff]
      have hlive : (e∈(t.mark idx .Rejected (by simp)).compact.entries ∧ e.state=.Pending) ↔
          ∃k,k≠idx ∧ t.entries[k]?=some e ∧ e.state=.Pending := by
        rw [← mem_mark_pending t idx .Rejected (by simp) e,Table.compact,List.mem_filter]
        constructor
        · exact fun h => ⟨h.1.1,h.2⟩
        · exact fun h => ⟨⟨h.1,decide_eq_true (Or.inl h.2)⟩,h.2⟩
      rw [← and_assoc,hlive]
      constructor
      · intro h
        obtain ⟨⟨k,hne,hk,hpe⟩,hid⟩ := h
        refine ⟨⟨List.mem_of_getElem? hk,hpe,hid⟩,?_⟩
        intro hj
        apply hne
        exact position_unique t k idx e a hk hidx hpe hpa (hid.trans (hj.trans hida.symm))
      · intro h
        obtain ⟨⟨he,hpe,hid⟩,hj⟩ := h
        obtain ⟨k,hk⟩ := List.mem_iff_getElem?.mp he
        refine ⟨⟨k,?_,hk,hpe⟩,hid⟩
        intro hki
        rw [hki,hidx] at hk
        cases hk
        exact hj (hid.symm.trans hida)
    apply Option.ext
    intro e
    rw [hmem e]
    by_cases hj : j=intentId
    · simp [hj]
    · simp [hj]

/-- A live entry stays behind a sweep exactly when it has not timed out. -/
theorem mem_expired (t : Table) (nowMs : UInt64) (e : Entry) (hl : e.state=.Pending ∨ e.state=.Executing) :
    e∈(t.expired nowMs).entries ↔ e∈t.entries ∧ e.timedOut nowMs=false := by
  have hloop : e∈(t.expireLoop nowMs).entries ↔ e∈t.entries ∧ e.timedOut nowMs=false := by
    rw [Table.expireLoop,List.mem_map]
    constructor
    · intro h
      obtain ⟨a,ha,he⟩ := h
      cases ht : a.timedOut nowMs with
      | false =>
        rw [Entry.expire,ht] at he
        rw [← he]
        exact ⟨ha,ht⟩
      | true =>
        rw [Entry.expire,if_pos ht] at he
        rw [← he] at hl
        simp at hl
    · intro h
      refine ⟨e,h.1,?_⟩
      rw [Entry.expire,h.2]
      rfl
  rw [Table.expired]
  split
  · rw [Table.compact,List.mem_filter,hloop]
    exact ⟨fun h => h.1,fun h => ⟨h,decide_eq_true hl⟩⟩
  · exact hloop

/-- The sweep takes away the pending entries that timed out and no other. -/
theorem pendingEntry_expired (t : Table) (nowMs : UInt64) (j : FixedBytes 16) (e : Entry) :
    (t.expired nowMs).pendingEntry j=some e ↔ t.pendingEntry j=some e ∧ e.timedOut nowMs=false := by
  rw [pendingEntry_iff,pendingEntry_iff]
  constructor
  · intro h
    obtain ⟨he,hp,hid⟩ := h
    obtain ⟨he,ht⟩ := (mem_expired t nowMs e (Or.inl hp)).mp he
    exact ⟨⟨he,hp,hid⟩,ht⟩
  · intro h
    obtain ⟨⟨he,hp,hid⟩,ht⟩ := h
    exact ⟨(mem_expired t nowMs e (Or.inl hp)).mpr ⟨he,ht⟩,hp,hid⟩

end Bolina.Intent
