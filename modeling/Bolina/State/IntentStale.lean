import Bolina.State.IntentLife

namespace Bolina.Intent

open Codec

/-- The error of an admission. -/
def Table.admitError (t : Table) (intentId : FixedBytes 16) (resource : Bytes) : Option IntentError :=
  if t.entries.any (Entry.pendingFor intentId) then some .DuplicateIntentId
  else if t.entries.any (Entry.holds resource) then some .ResourceHeld
  else if maxPending ≤ t.entries.length then some .TableFull
  else none

/-- An admission fails on account of entries that have timed out: they alone hold the
resource, or they take up room in a full table. -/
structure Table.Stale (t : Table) (intentId : FixedBytes 16) (resource : Bytes) (nowMs : UInt64) : Prop where
  free : t.entries.any (Entry.pendingFor intentId)=false
  blocked : (t.entries.any (Entry.holds resource)=true ∧
      ∀e∈t.entries,e.holds resource=true → e.timedOut nowMs=true) ∨
    (t.entries.any (Entry.holds resource)=false ∧ maxPending ≤ t.entries.length ∧
      t.entries.any (Entry.timedOut nowMs)=true)

theorem admit_fst (t : Table) (intentId : FixedBytes 16) (resource : FixedBytes 256) (resourceLen : Nat)
    (hlen : resourceLen ≤ maxResource) (nowMs : UInt64) (e : IntentError) :
    ( t.admit intentId resource resourceLen hlen nowMs).1=.error e ↔
      t.admitError intentId (resource.toList.take resourceLen)=some e := by
  have hres : (⟨intentId,resource,resourceLen,hlen,.Pending,nowMs⟩ : Entry).resource=
      resource.toList.take resourceLen := rfl
  rw [ Table.admit, Table.admitError]
  simp only [hres]
  split_ifs
  all_goals simp

section Stale

variable (t : Table) (intentId : FixedBytes 16) (resource : Bytes) (nowMs : UInt64)

theorem holds_expired : (t.expired nowMs).entries.any (Entry.holds resource)=true ↔
    ∃e∈t.entries,e.holds resource=true ∧ e.timedOut nowMs=false := by
  rw [List.any_eq_true]
  constructor
  · intro h
    obtain ⟨e,he,hh⟩ := h
    have hl := (of_decide_eq_true hh).1
    obtain ⟨hm,ht⟩ := (mem_expired t nowMs e hl).mp he
    exact ⟨e,hm,hh,ht⟩
  · intro h
    obtain ⟨e,hm,hh,ht⟩ := h
    have hl := (of_decide_eq_true hh).1
    exact ⟨e,(mem_expired t nowMs e hl).mpr ⟨hm,ht⟩,hh⟩

theorem free_expired (h : t.entries.any (Entry.pendingFor intentId)=false) :
    (t.expired nowMs).entries.any (Entry.pendingFor intentId)=false := by
  rw [List.any_eq_false] at h ⊢
  intro e he hp
  have hl := (of_decide_eq_true hp).1
  exact h e ((mem_expired t nowMs e (Or.inl hl)).mp he).1 hp

/-- A sweep that finds an entry makes room. -/
theorem length_expired_lt (h : t.entries.any (Entry.timedOut nowMs)=true) :
    (t.expired nowMs).entries.length < t.entries.length := by
  obtain ⟨e,he,ht⟩ := List.any_eq_true.mp h
  have hc : 0 < t.collapsed nowMs := List.countP_pos_iff.mpr ⟨e,he,ht⟩
  have hgone : ∃a∈(t.expireLoop nowMs).entries,¬decide (a.state=.Pending ∨ a.state=.Executing)=true := by
    refine ⟨e.expire nowMs,List.mem_map_of_mem he,?_⟩
    rw [Entry.expire,if_pos ht]
    simp
  have hlen : (t.expireLoop nowMs).entries.length=t.entries.length := List.length_map _
  rw [Table.expired,if_pos hc,Table.compact,← hlen]
  exact List.length_filter_lt_length_iff_exists.mpr hgone

/-- A sweep that finds nothing leaves the table. -/
theorem entries_expired (h : t.entries.any (Entry.timedOut nowMs)=false) :
    (t.expired nowMs).entries=t.entries := by
  rw [List.any_eq_false] at h
  have hc : ¬0 < t.collapsed nowMs := by
    intro hpos
    obtain ⟨e,he,ht⟩ := List.countP_pos_iff.mp hpos
    exact h e he ht
  rw [Table.expired,if_neg hc]
  have hsame : ∀e∈t.entries,e.expire nowMs=id e := fun e he => if_neg (h e he)
  show t.entries.map (Entry.expire nowMs)=t.entries
  rw [List.map_congr_left hsame]
  exact List.map_id t.entries

theorem admitError_of_free (h : t.entries.any (Entry.pendingFor intentId)=false) :
    t.admitError intentId resource=
      if t.entries.any (Entry.holds resource)=true then some .ResourceHeld
      else if maxPending ≤ t.entries.length then some .TableFull
      else none := by
  rw [ Table.admitError,h]
  rfl

variable {t intentId resource nowMs}

/-- Without the entries that timed out a stale refusal is none. -/
theorem admitError_expired_of_stale (hfits : t.entries.length ≤ maxPending)
    (h : t.Stale intentId resource nowMs) : (t.expired nowMs).admitError intentId resource=none := by
  have hfree := free_expired t intentId nowMs h.free
  have hroom : ∀(_ : t.entries.any (Entry.timedOut nowMs)=true),
      ¬maxPending ≤ (t.expired nowMs).entries.length := by
    intro hany
    have hlt := length_expired_lt t nowMs hany
    omega
  have hheld : ¬(t.expired nowMs).entries.any (Entry.holds resource)=true ∧
      t.entries.any (Entry.timedOut nowMs)=true := by
    rw [holds_expired]
    obtain ⟨hh,hall⟩|⟨hh,_,hany⟩ := h.blocked
    · constructor
      · intro hx
        obtain ⟨e,he,hholds,ht⟩ := hx
        rw [hall e he hholds] at ht
        cases ht
      · obtain ⟨e,he,hholds⟩ := List.any_eq_true.mp hh
        exact List.any_eq_true.mpr ⟨e,he,hall e he hholds⟩
    · refine ⟨?_,hany⟩
      intro hx
      obtain ⟨e,he,hholds,_⟩ := hx
      rw [List.any_eq_false] at hh
      exact hh e he hholds
  rw [admitError_of_free _ _ _ hfree,if_neg hheld.1,if_neg (hroom hheld.2)]

/-- A refusal for want of room or for the resource stands without them, if it is not stale. -/
theorem admitError_expired_of_not_stale (h : ¬t.Stale intentId resource nowMs) (e : IntentError)
    (he : e=.ResourceHeld ∨ e=.TableFull) (hr : t.admitError intentId resource=some e) :
    (t.expired nowMs).admitError intentId resource=some e := by
  by_cases hdup : t.entries.any (Entry.pendingFor intentId)=true
  · rw [ Table.admitError,if_pos hdup] at hr
    cases hr
    simp at he
  have hfree : t.entries.any (Entry.pendingFor intentId)=false := by simpa using hdup
  rw [admitError_of_free _ _ _ hfree] at hr
  rw [admitError_of_free _ _ _ (free_expired t intentId nowMs hfree)]
  by_cases hheld : t.entries.any (Entry.holds resource)=true
  · rw [if_pos hheld] at hr
    have hlive : (t.expired nowMs).entries.any (Entry.holds resource)=true := by
      rw [holds_expired]
      by_contra hno
      refine h ⟨hfree,Or.inl ⟨hheld,?_⟩⟩
      intro a ha hh
      cases ht : a.timedOut nowMs with
      | true => rfl
      | false => exact absurd ⟨a,ha,hh,ht⟩ hno
    rw [if_pos hlive,hr]
  · rw [if_neg hheld] at hr
    by_cases hfull : maxPending ≤ t.entries.length
    · have hany : t.entries.any (Entry.timedOut nowMs)=false := by
        by_contra hany
        exact h ⟨hfree,Or.inr ⟨by simpa using hheld,hfull,by simpa using hany⟩⟩
      rw [entries_expired t nowMs hany,if_neg hheld,hr]
    · rw [if_neg hfull] at hr
      cases hr

theorem admitError_of_stale (h : t.Stale intentId resource nowMs) :
    ∃e,(e=.ResourceHeld ∨ e=.TableFull) ∧ t.admitError intentId resource=some e := by
  rw [admitError_of_free _ _ _ h.free]
  obtain ⟨hheld,_⟩|⟨hheld,hfull,_⟩ := h.blocked
  · exact ⟨.ResourceHeld,Or.inl rfl,if_pos hheld⟩
  · refine ⟨.TableFull,Or.inr rfl,?_⟩
    rw [hheld]
    exact if_pos hfull

end Stale

theorem applyRefusal_fits (t : Table) (intentId : FixedBytes 16) :
    (t.applyRefusal intentId).2.entries.length ≤ t.entries.length := by
  rw [Table.applyRefusal]
  cases t.matchForGrant intentId with
  | none => exact le_refl _
  | some idx =>
    show (List.filter _ (t.entries.modify idx _)).length ≤ _
    refine (List.length_filter_le _ _).trans ?_
    rw [List.length_modify]

end Bolina.Intent
