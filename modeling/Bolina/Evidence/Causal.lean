import Bolina.Evidence.Admission

namespace Bolina.Evidence

open Transport (VerifyError)

/-- The call at a place of the run is admitted there. -/
def AdmittedAt (cs : List Call) (i : Nat) (c : Call) : Prop :=
  cs[i]?=some c ∧ ((Ledger.run (cs.take i)).answer c).1=.ok ()

/-- The admission that a parent hash of the call at `i` refers to: the first of that hash. -/
def ParentAt (cs : List Call) (j i : Nat) : Prop :=
  ∃c d,AdmittedAt cs i c ∧ AdmittedAt cs j d ∧ d.hash∈c.parents ∧
    ∀k e,AdmittedAt cs k e → e.hash=d.hash → j ≤ k

section Step

variable {L : Ledger} {c : Call}

/-- The store only grows, by the entry of an admitted call. -/
theorem answer_store (L : Ledger) (c : Call) :
    (L.answer c).2.envelopes=L.envelopes ∨
      ((L.answer c).2.envelopes=L.envelopes++[c.entry] ∧ (L.answer c).1=.ok ()) := by
  have ha := admission L c
  generalize (L.answer c).1=res at ha ⊢
  generalize (L.answer c).2=L' at ha ⊢
  cases ha with
  | orphan hp => exact Or.inl rfl
  | stale hp hs => exact Or.inl rfl
  | again M hp ha hs hf => exact Or.inl rfl
  | divergent M hp ha hs hd => exact Or.inl rfl
  | full M hp ha hs hf hl => exact Or.inl rfl
  | stored M hp ha hs hf hl => exact Or.inr ⟨rfl,rfl⟩

theorem answer_grows (L : Ledger) (c : Call) : L.envelopes <+: (L.answer c).2.envelopes := by
  obtain h|⟨h,_⟩ := answer_store L c
  · rw [h]
  · rw [h]
    exact List.prefix_append _ _

/-- What is found in a store is found in every longer one. -/
theorem find_of_grown {L M : Ledger} (h : L.envelopes <+: M.envelopes) (sender channel : FixedBytes 32)
    (seq : UInt64) (v : Hash) (hf : L.findEnvelope sender channel seq=some v) :
    M.findEnvelope sender channel seq=some v := by
  obtain ⟨t,ht⟩ := h
  rw [Ledger.findEnvelope,Option.map_eq_some_iff] at hf ⊢
  obtain ⟨e,he,hv⟩ := hf
  refine ⟨e,?_,hv⟩
  rw [← ht,List.find?_append,he]
  rfl

theorem found_of_admitted (h : (L.answer c).1=.ok ()) :
    (L.answer c).2.findEnvelope c.sender c.channel c.seq=some c.hash := by
  have ha := admission L c
  rw [h] at ha
  generalize (L.answer c).2=L' at ha ⊢
  cases ha with
  | again M hp ha hs hf => exact hf
  | stored M hp ha hs hf hl =>
    have hnone : L.envelopes.find? (EnvelopeEntry.isFor c.sender c.channel c.seq)=none :=
      Option.map_eq_none_iff.mp hf
    simp [Ledger.findEnvelope,List.find?_append,hnone,Call.entry,EnvelopeEntry.isFor]

theorem parents_of_admitted (h : (L.answer c).1=.ok ()) (p : Hash) (hp : p∈c.parents) :
    ∃e∈L.envelopes,e.hash=p := by
  have hpar : L.allParentsPresent c.parents=true := by
    have ha := admission L c
    rw [h] at ha
    generalize (L.answer c).2=L' at ha
    cases ha with
    | again M hp ha hs hf => exact hp
    | stored M hp ha hs hf hl => exact hp
  rw [Ledger.allParentsPresent,List.all_eq_true] at hpar
  obtain ⟨e,he,hh⟩ := List.any_eq_true.mp (hpar p hp)
  exact ⟨e,he,eq_of_beq hh⟩

end Step

theorem run_take_succ (cs : List Call) (i : Nat) (c : Call) (h : cs[i]?=some c) :
    Ledger.run (cs.take (i+1))=((Ledger.run (cs.take i)).answer c).2 := by
  rw [List.take_add_one,h]
  exact run_concat _ c

theorem run_take_step (cs : List Call) (i : Nat) :
    Ledger.run (cs.take (i+1))=Ledger.run (cs.take i) ∨
      ∃c,cs[i]?=some c ∧ Ledger.run (cs.take (i+1))=((Ledger.run (cs.take i)).answer c).2 := by
  cases h : cs[i]? with
  | none =>
    left
    rw [List.take_add_one,h]
    simp
  | some c => exact Or.inr ⟨c,rfl,run_take_succ cs i c h⟩

theorem store_grows (cs : List Call) (m n : Nat) (h : m ≤ n) :
    (Ledger.run (cs.take m)).envelopes <+: (Ledger.run (cs.take n)).envelopes := by
  induction n,h using Nat.le_induction with
  | base => exact List.prefix_rfl
  | succ n hmn ih =>
    refine ih.trans ?_
    obtain hs|⟨c,_,hs⟩ := run_take_step cs n
    · rw [hs]
    · rw [hs]
      exact answer_grows _ c

/-- Every stored hash was brought by an admitted call. -/
theorem stored_admitted (cs : List Call) (i : Nat) (e : EnvelopeEntry)
    (he : e∈(Ledger.run (cs.take i)).envelopes) :
    ∃j d,j < i ∧ AdmittedAt cs j d ∧ d.hash=e.hash := by
  induction i with
  | zero => exact (List.not_mem_nil he).elim
  | succ i ih =>
    have hold : e∈(Ledger.run (cs.take i)).envelopes →
        ∃j d,j < i+1 ∧ AdmittedAt cs j d ∧ d.hash=e.hash := by
      intro h
      obtain ⟨j,d,hj,hd⟩ := ih h
      exact ⟨j,d,hj.trans (Nat.lt_succ_self i),hd⟩
    obtain hs|⟨c,hc,hs⟩ := run_take_step cs i
    · rw [hs] at he
      exact hold he
    · rw [hs] at he
      obtain hsame|⟨hnew,hok⟩ := answer_store (Ledger.run (cs.take i)) c
      · rw [hsame] at he
        exact hold he
      · rw [hnew,List.mem_append,List.mem_singleton] at he
        cases he with
        | inl h => exact hold h
        | inr h =>
          refine ⟨i,c,Nat.lt_succ_self i,⟨hc,hok⟩,?_⟩
          rw [h]
          rfl

theorem parent_earlier (cs : List Call) (i : Nat) (c : Call) (h : AdmittedAt cs i c) (p : Hash)
    (hp : p∈c.parents) : ∃j d,j < i ∧ AdmittedAt cs j d ∧ d.hash=p := by
  obtain ⟨e,he,hh⟩ := parents_of_admitted h.2 p hp
  obtain ⟨j,d,hj,hd,hdh⟩ := stored_admitted cs i e he
  exact ⟨j,d,hj,hd,hdh.trans hh⟩

theorem parentAt_lt (cs : List Call) (j i : Nat) (h : ParentAt cs j i) : j < i := by
  obtain ⟨c,d,hc,_,hmem,hfirst⟩ := h
  obtain ⟨k,e,hk,he,heh⟩ := parent_earlier cs i c hc d.hash hmem
  exact (hfirst k e he heh).trans_lt hk

/-- Causal closure of a run of admissions over an empty ledger. -/
structure CausallyClosed (cs : List Call) : Prop where
  earlier : ∀i c,AdmittedAt cs i c → ∀p∈c.parents,∃j d,j < i ∧ AdmittedAt cs j d ∧ d.hash=p
  findable : ∀i c,AdmittedAt cs i c → ∀n,i < n →
    (Ledger.run (cs.take n)).findEnvelope c.sender c.channel c.seq=some c.hash
  grows : ∀m n,m ≤ n → (Ledger.run (cs.take m)).envelopes <+: (Ledger.run (cs.take n)).envelopes
  wellFounded : WellFounded (ParentAt cs)

theorem causal_closure (cs : List Call) : CausallyClosed cs where
  earlier := parent_earlier cs
  findable i c h n hn := by
    have hfound := found_of_admitted h.2
    rw [← run_take_succ cs i c h.1] at hfound
    exact find_of_grown (store_grows cs (i+1) n hn) _ _ _ _ hfound
  grows := store_grows cs
  wellFounded := Subrelation.wf (fun h => parentAt_lt cs _ _ h) Nat.lt_wfRel.wf

end Bolina.Evidence
