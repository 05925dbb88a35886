import Bolina.Evidence.LedgerTables

namespace Bolina.Evidence

open GuardedRun KeyedTable
open Transport (revokePruneExpiry)

/-- An entry of a body that carries no expiry. -/
def RevocationEntry.neverPrune (r : RevocationEntry) : Bool := r.certExpiryMs==revokePruneExpiry []

def Tables.nothingPrunable (T : Tables) : Bool :=
  maxRevocations ≤ T.revocations.length && T.revocations.all RevocationEntry.neverPrune

/-- The call takes a key that has no record yet. -/
def Write.revokesNew (T : Tables) : Write → Bool
  | .setRevocation pubkey _ _ => !T.isRevoked pubkey
  | _ => false

/-- Whoever is on record as never pruned is reported after every later call. -/
def NeverPrunedStay (ws : List Write) : Prop :=
  ∀i j,i ≤ j → ∀r∈(Tables.after (ws.take i)).revocations,r.neverPrune=true →
    (Tables.after (ws.take j)).isRevoked r.pubkey=true

/-- A full table of never-prune entries turns a new key away and stays as it is. -/
def RefusesWhenFull (T : Tables) (w : Write) : Prop :=
  T.nothingPrunable=true → w.revokesNew T=true → T.answer w=(.error .RevocationsFull,T)

/-- Whatever goes has the lowest expiry of those that were there. -/
def EvictsLowest (T : Tables) (w : Write) : Prop :=
  ∀r∈T.revocations,r∉(T.step w).revocations → ∀q∈T.revocations,r.certExpiryMs ≤ q.certExpiryMs

/-- No new key arrives at a full table of never-prune entries. -/
def LeavesRoom (T : Tables) (w : Write) : Prop := ¬(T.nothingPrunable=true ∧ w.revokesNew T=true)

theorem neverPrune_top (r q : RevocationEntry) (h : r.neverPrune=true) (hle : r.certExpiryMs ≤ q.certExpiryMs) :
    q.neverPrune=true := by
  have hr : r.certExpiryMs=UInt64.ofNat (2^64-1) := by simpa [RevocationEntry.neverPrune,revokePruneExpiry] using h
  have hq : q.certExpiryMs.toNat < 2^64 := q.certExpiryMs.toNat_lt
  have hn : r.certExpiryMs.toNat ≤ q.certExpiryMs.toNat := hle
  rw [hr] at hn
  have ht : (UInt64.ofNat (2^64-1)).toNat=2^64-1 := by decide
  have he : q.certExpiryMs=UInt64.ofNat (2^64-1) := by
    apply UInt64.toNat_inj.mp
    omega
  simp [RevocationEntry.neverPrune,revokePruneExpiry,he]

/-- The calls of the other tables leave the revocations alone. -/
theorem step_revocations (T : Tables) (w : Write) (h : ∀pubkey hash e,w≠.setRevocation pubkey hash e) :
    (T.step w).revocations=T.revocations := by
  cases w with
  | insertEnvelope entry => rfl
  | checkSeq sender channel seq => rfl
  | setAnchor pubkey hash =>
    change (T.setAnchor pubkey hash).2.revocations=T.revocations
    rw [Tables.setAnchor]
    split
    · split <;> rfl
    · split <;> rfl
  | setRevocation pubkey hash e => exact absurd rfl (h pubkey hash e)

/-- A call keeps every record but, for a new key at a full table, a lowest one. -/
theorem step_keeps (T : Tables) (w : Write) :
    (∀r∈T.revocations,r∈(T.step w).revocations) ∨
    (w.revokesNew T=true ∧ maxRevocations ≤ T.revocations.length ∧
      ∃x,(∀q∈T.revocations,x.certExpiryMs ≤ q.certExpiryMs) ∧
        ∀r∈T.revocations,r=x ∨ r∈(T.step w).revocations) := by
  by_cases hw : ∃pubkey hash e,w=.setRevocation pubkey hash e
  · obtain ⟨pubkey,hash,e,rfl⟩ := hw
    obtain ⟨_,hs⟩|⟨hnew,hroom,hs⟩|⟨hnew,hfull,i,x,hi,hmin,hs⟩ := setRevocation_cases T pubkey hash e
    · left
      intro r hr
      change r∈(T.setRevocation pubkey hash e).2.revocations
      rw [hs]
      exact hr
    · left
      intro r hr
      change r∈(T.setRevocation pubkey hash e).2.revocations
      rw [hs]
      exact List.mem_append_left _ hr
    · right
      refine ⟨by rw [Write.revokesNew,hnew]; rfl,hfull,x,hmin,?_⟩
      intro r hr
      cases List.mem_cons.mp ((swapRemove_perm T.revocations i x hi).mem_iff.mpr hr) with
      | inl he => exact Or.inl he
      | inr hin =>
        right
        change r∈(T.setRevocation pubkey hash e).2.revocations
        rw [hs]
        exact List.mem_append_left _ hin
  · left
    have hsame := step_revocations T w (fun pubkey hash e he => hw ⟨pubkey,hash,e,he⟩)
    intro r hr
    rw [hsame]
    exact hr

theorem step_evictsLowest (T : Tables) (w : Write) : EvictsLowest T w := by
  intro r hr hgone q hq
  obtain hkeep|⟨_,_,x,hmin,hx⟩ := step_keeps T w
  · exact absurd (hkeep r hr) hgone
  · cases hx r hr with
    | inl he =>
      rw [he]
      exact hmin q hq
    | inr hin => exact absurd hin hgone

theorem step_keeps_neverPruned (T : Tables) (w : Write) (h : LeavesRoom T w) (r : RevocationEntry)
    (hr : r∈T.revocations) (hn : r.neverPrune=true) : r∈(T.step w).revocations := by
  obtain hkeep|⟨hnew,hfull,x,hmin,hx⟩ := step_keeps T w
  · exact hkeep r hr
  · cases hx r hr with
    | inr hin => exact hin
    | inl he =>
      have hall : T.revocations.all RevocationEntry.neverPrune=true := by
        apply List.all_eq_true.mpr
        intro q hq
        exact neverPrune_top r q hn (by rw [he]; exact hmin q hq)
      have hnone : T.nothingPrunable=true := by simp [Tables.nothingPrunable,hfull,hall]
      exact absurd ⟨hnone,hnew⟩ h

theorem run_keeps_neverPruned (T : Tables) (ws : List Write) (h : Meets Tables.step LeavesRoom T ws)
    (r : RevocationEntry) (hr : r∈T.revocations) (hn : r.neverPrune=true) :
    r∈(ws.foldl Tables.step T).revocations :=
  invariant (P := fun T => r∈T.revocations) (fun T w hg hin => step_keeps_neverPruned T w hg r hin hn) T ws h hr

/-- The table never answers that it is full: it takes the key. -/
theorem answer_nothingPrunable (T : Tables) (w : Write) (hf : T.nothingPrunable=true)
    (hn : w.revokesNew T=true) : (T.answer w).1=.ok () := by
  cases w with
  | insertEnvelope entry => cases hn
  | checkSeq sender channel seq => cases hn
  | setAnchor pubkey hash => cases hn
  | setRevocation pubkey hash e =>
    have hnew : T.isRevoked pubkey=false := by simpa [Write.revokesNew] using hn
    have hfull : maxRevocations ≤ T.revocations.length := by
      simp only [Tables.nothingPrunable,Bool.and_eq_true,decide_eq_true_eq] at hf
      exact hf.1
    obtain ⟨hold,_⟩|⟨_,hroom,_⟩|⟨_,_,i,x,_,_,hs⟩ := setRevocation_cases T pubkey hash e
    · rw [hnew] at hold
      cases hold
    · exact absurd hfull (Nat.not_le.mpr hroom)
    · change (T.setRevocation pubkey hash e).1=.ok ()
      rw [hs]

theorem refusesWhenFull_iff (T : Tables) (w : Write) : RefusesWhenFull T w ↔ LeavesRoom T w := by
  constructor
  · intro h hboth
    have hok := answer_nothingPrunable T w hboth.1 hboth.2
    rw [h hboth.1 hboth.2] at hok
    cases hok
  · intro h hf hn
    exact absurd ⟨hf,hn⟩ h

/-- The three promises hold of exactly the runs in which no new key arrives at a full
table of never-prune entries. -/
theorem neverPruned_iff (ws : List Write) :
    (NeverPrunedStay ws ∧ Meets Tables.step RefusesWhenFull Tables.new ws ∧
      Meets Tables.step EvictsLowest Tables.new ws) ↔
    Meets Tables.step LeavesRoom Tables.new ws := by
  have hiff : Meets Tables.step RefusesWhenFull Tables.new ws ↔ Meets Tables.step LeavesRoom Tables.new ws :=
    meets_congr (I := fun _ => True) (fun _ _ _ => trivial) (fun T w _ => refusesWhenFull_iff T w) _ ws trivial
  constructor
  · intro h
    exact hiff.mp h.2.1
  · intro h
    refine ⟨?_,hiff.mpr h,?_⟩
    · intro i j hij r hr hn
      have hcut : ws.take j=ws.take i++(ws.drop i).take (j-i) := by
        rw [← List.take_add,Nat.add_sub_cancel' hij]
      have htake : Meets Tables.step LeavesRoom Tables.new (ws.take j) := by
        have hall := h
        rw [← List.take_append_drop j ws] at hall
        exact ((meets_append _ _ _).mp hall).1
      rw [hcut] at htake
      have hrest := ((meets_append _ _ _).mp htake).2
      have hin := run_keeps_neverPruned _ _ hrest r hr hn
      rw [← List.foldl_append,← hcut] at hin
      exact List.any_eq_true.mpr ⟨r,hin,beq_self_eq_true _⟩
    · exact meets_of_invariant (P := fun _ => True) (fun _ _ _ => trivial)
        (fun T w _ => step_evictsLowest T w) _ ws trivial

/-- One key more than the table holds, none of them ever to be pruned. -/
def oneTooMany : List Write :=
  (List.range 65).map (fun n =>
    Write.setRevocation (fixed 32 [UInt8.ofNat n]) (fixed 32 [7]) (revokePruneExpiry []))

/-- The last key is taken, and the first one is no longer revoked. -/
theorem neverPruned_lost :
    ¬NeverPrunedStay oneTooMany ∧ ¬Meets Tables.step RefusesWhenFull Tables.new oneTooMany := by
  have hfirst : (⟨fixed 32 [0],fixed 32 [7],revokePruneExpiry []⟩ : RevocationEntry)∈
      (Tables.after (oneTooMany.take 64)).revocations := by decide +kernel
  have hgone : (Tables.after (oneTooMany.take 65)).isRevoked (fixed 32 [0])=false := by decide +kernel
  constructor
  · intro h
    have hstay := h 64 65 (by decide) _ hfirst (beq_self_eq_true _)
    rw [hgone] at hstay
    cases hstay
  · have hfull : (Tables.after (oneTooMany.take 64)).nothingPrunable=true := by decide +kernel
    have hlast : oneTooMany=oneTooMany.take 64++
        [Write.setRevocation (fixed 32 [64]) (fixed 32 [7]) (revokePruneExpiry [])] := by decide +kernel
    have hnew : (Write.setRevocation (fixed 32 [64]) (fixed 32 [7]) (revokePruneExpiry [])).revokesNew
        (Tables.after (oneTooMany.take 64))=true := by decide +kernel
    intro h
    rw [hlast] at h
    have hguard := (refusesWhenFull_iff _ _).mp ((meets_append _ _ _).mp h).2.1
    exact hguard ⟨hfull,hnew⟩

end Bolina.Evidence
