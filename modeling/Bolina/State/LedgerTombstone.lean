import Bolina.State.LedgerPermanence

namespace Bolina.State

open RecordLog GuardedRun KeyedFold

/-- No commit of an id comes after its tombstone. -/
def Settled (rs : List Record) : Prop :=
  rs.Pairwise (fun a b => ∀id expiry,a=.published id → b≠.commit id expiry)

/-- The tombstones of the log are those of the caches, they are final, and they
include `G`. -/
structure Tombstones (G : GrantId → Prop) (rs : List Record) (c : Caches) : Prop where
  published : ∀id,id∈c.published ↔ Record.published id∈rs
  settled : Settled rs
  spent : ∀id∈c.published,id∉c.consumed
  kept : ∀id,G id → id∈c.published

theorem settled_snoc (rs : List Record) (r : Record) (h : Settled rs)
    (hr : ∀id expiry,Record.published id∈rs → r≠.commit id expiry) : Settled (rs++[r]) := by
  apply List.pairwise_append.mpr
  refine ⟨h,List.pairwise_singleton _ _,?_⟩
  intro a ha b hb id expiry hid
  rw [List.mem_singleton.mp hb]
  exact hr id expiry (hid ▸ ha)

theorem settled_init (rs : List Record) (r : Record) (h : Settled (rs++[r])) :
    Settled rs ∧ ∀id expiry,Record.published id∈rs → r≠.commit id expiry := by
  obtain ⟨hrs,_,hlast⟩ := List.pairwise_append.mp h
  exact ⟨hrs,fun id expiry hm => hlast _ hm r (List.mem_singleton_self r) id expiry rfl⟩

/-- Replaying a settled log leaves no published id live. -/
theorem replayAll_settled (rs : List Record) (h : Settled rs) :
    (∀id,id∈(Caches.replayAll rs).published ↔ Record.published id∈rs) ∧
    ∀id∈(Caches.replayAll rs).published,id∉(Caches.replayAll rs).consumed := by
  induction rs using List.reverseRecOn with
  | nil => simp [Caches.replayAll,Caches.empty]
  | append_singleton rs r ih =>
    obtain ⟨hrs,hlast⟩ := settled_init rs r h
    obtain ⟨hpub,hspent⟩ := ih hrs
    rw [replayAll_snoc]
    cases r with
    | commit id expiry =>
      refine ⟨by simpa [Caches.replay] using hpub,?_⟩
      intro x hx hc
      cases (AList.mem_insert _).mp hc with
      | inl he => exact hlast id expiry ((hpub id).mp (he ▸ hx)) rfl
      | inr hm => exact hspent x hx hm
    | published id =>
      constructor
      · intro x
        simp [Caches.replay,hpub x,or_comm]
      · intro x hx hc
        obtain ⟨hne,hm⟩ := AList.mem_erase.mp hc
        cases Finset.mem_insert.mp hx with
        | inl he => exact hne he
        | inr hp => exact hspent x hp hm
    | revoke pk certExpiry => exact ⟨by simpa [Caches.replay] using hpub,hspent⟩
    | firstReceipt id time => exact ⟨by simpa [Caches.replay] using hpub,hspent⟩

theorem imageRecords_not_published (io : Io) (c : Caches) (id : GrantId) :
    Record.published id∉c.imageRecords io := by simp [Caches.imageRecords]

theorem tombstones_carries (G : GrantId → Prop) :
    Carries (fun c => c.published=∅) (Tombstones G) where
  drop rs c nowMs h := by
    refine ⟨h.published,h.settled,?_,h.kept⟩
    intro id hp hc
    rw [dropExpired_consumed,mem_eraseAll] at hc
    exact h.spent id hp hc.1
  image io rs c nowMs h hp := by
    have none : ∀id,id∉c.published := by simp [hp]
    refine ⟨?_,?_,fun id hid => absurd hid (none id),fun id hid => absurd (h.kept id hid) (none id)⟩
    · intro id
      exact iff_of_false (none id) (imageRecords_not_published io _ id)
    · apply List.pairwise_of_forall_mem_list
      intro a ha b _ id expiry he
      exact absurd (he ▸ ha) (imageRecords_not_published io _ id)
  write rs c r h hr := by
    have hlast : ∀id expiry,Record.published id∈rs → r≠.commit id expiry := by
      intro id expiry hm he
      rw [he] at hr
      exact hr (Or.inr ((h.published id).mpr hm))
    have hsettled := settled_snoc rs r h.settled hlast
    cases r with
    | commit id expiry =>
      refine ⟨by simpa [Caches.apply] using h.published,hsettled,?_,h.kept⟩
      intro x hx hc
      cases (AList.mem_insert _).mp hc with
      | inl he => exact hr (Or.inr (he ▸ hx))
      | inr hm => exact h.spent x hx hm
    | published id =>
      refine ⟨?_,hsettled,?_,fun x hx => Finset.mem_insert_of_mem (h.kept x hx)⟩
      · intro x
        simp [Caches.apply,h.published x,or_comm]
      · intro x hx hc
        obtain ⟨hne,hm⟩ := AList.mem_erase.mp hc
        cases Finset.mem_insert.mp hx with
        | inl he => exact hne he
        | inr hp => exact h.spent x hp hm
    | revoke pk certExpiry =>
      exact ⟨by simpa [Caches.apply] using h.published,hsettled,h.spent,h.kept⟩
    | firstReceipt id time =>
      exact ⟨by simpa [Caches.apply] using h.published,hsettled,h.spent,h.kept⟩
  replay rs c h := by
    obtain ⟨hpub,hspent⟩ := replayAll_settled rs h.settled
    exact ⟨hpub,h.settled,hspent,fun id hid => (hpub id).mpr ((h.published id).mp (h.kept id hid))⟩

/-- Every append lands at the end of a whole log and is synced when it is written,
and no rewrite happens while there is a tombstone to lose. -/
abbrev KeepsTombstones : Node → Io × Op → Prop := Tidy (fun c => c.published=∅) False

theorem tidy_strict {safe : Caches → Prop} {lossy : Prop} (n : Node) (x : Io × Op)
    (h : Tidy safe False n x) : Tidy safe lossy n x :=
  ⟨h.whole,h.safe,h.syncs.imp id False.elim⟩

/-- A tombstone nothing can undo: the id is published, it is not live, and
committing it again changes nothing. -/
def Buried (l : GrantLedger) (id : GrantId) : Prop :=
  l.isPublished id=true ∧ l.isConsumed id=false ∧
    ∀io d expiryMs nowMs,Store.commitConsumed io ⟨l,d⟩ id expiryMs nowMs=(.ok (),⟨l,d⟩)

theorem buried_of_tombstones {G : GrantId → Prop} {rs : List Record} {l : GrantLedger}
    (h : Tombstones G rs l.toCaches) (id : GrantId) (hid : G id) : Buried l id := by
  have hp := h.kept id hid
  refine ⟨decide_eq_true hp,decide_eq_false (h.spent id hp),?_⟩
  intro io d expiryMs nowMs
  exact if_pos (Or.inr hp)

/-- A published tombstone survives everything that happens to the ledger afterwards,
as long as every append lands at the end of a whole log and is synced once it is
written, and no call rewrites the file while it holds a tombstone. -/
theorem tombstone_permanent (io₀ : Io) (before after : List (Io × Op)) (io : Io) (g : GrantId)
    (l : GrantLedger)
    (hops : Meets Node.step KeepsTombstones (Node.reopened io₀ ⟨[],none,[]⟩)
      (before++(io,.call (.markPublished g))::after))
    (hl : (before.foldl Node.step (Node.reopened io₀ ⟨[],none,[]⟩)).ledger=some l)
    (hok : (Store.markPublished io
      ⟨l,(before.foldl Node.step (Node.reopened io₀ ⟨[],none,[]⟩)).disk⟩ g).1=.ok ()) :
    let n := (before++(io,.call (.markPublished g))::after).foldl Node.step
      (Node.reopened io₀ ⟨[],none,[]⟩)
    (∀l',n.ledger=some l' → Buried l' g) ∧
    ∀io',io'.Opens → ∃recovery l' d',reopen io' n.disk=(.ok (recovery,l'),d') ∧ Buried l' g ∧
      g∉recovery.orphans := by
  intro n
  have hstart : (Node.reopened io₀ ⟨[],none,[]⟩).Carried (Tombstones fun _ => False) := by
    apply carried_reopened (tombstones_carries _) io₀ ⟨[],none,[]⟩ Caches.empty
    refine ⟨[],[],rfl,ledgerFormat.torn_nil,?_⟩
    exact ⟨by simp [Caches.empty],List.Pairwise.nil,by simp [Caches.empty],fun _ h => h.elim⟩
  -- the call has returned Ok, so from there on the id is one of those that stay published
  have hgain : ∀rs c,Tombstones (fun _ => False) rs c → c.Holds (.published g) →
      Tombstones (fun x => x=g) rs c := by
    intro rs c h hh
    refine ⟨h.published,h.settled,h.spent,?_⟩
    intro x hx
    rw [hx]
    exact hh
  have hend := carried_after_ok (tombstones_carries _) (tombstones_carries fun x => x=g) tidy_strict
    tidy_strict _ hstart before after io (.markPublished g) _ rfl hops l hl hok hgain
  obtain ⟨c,⟨rs,p,hlog,htorn,hq⟩,hc⟩ := hend
  constructor
  · intro l' hl'
    have hcl := hc l' hl'
    subst hcl
    exact buried_of_tombstones hq g rfl
  · intro io' hio'
    have hreplay := (tombstones_carries _).replay rs c hq
    refine ⟨_,_,_,reopen_of_records io' hio' n.disk rs p hlog htorn,?_,?_⟩
    · exact @buried_of_tombstones _ rs ((Caches.replayAll rs).recovered n.disk) hreplay g rfl
    · intro ho
      exact hreplay.spent g (hreplay.kept g rfl) ((mem_orphans _ g).mp ho).2

def sampleHistory : List (Io × Op) := [(Io.good,.call (.commitConsumed (sampleId 1) 50 10))]

theorem tombstone_permanent_sample :
    let n := (sampleHistory++(Io.good,Op.call (.markPublished (sampleId 1)))::
      [(Io.good,.restart)]).foldl Node.step (Node.reopened Io.good ⟨[],none,[]⟩)
    (∀l',n.ledger=some l' → Buried l' (sampleId 1)) ∧
    ∀io',io'.Opens → ∃recovery l' d',reopen io' n.disk=(.ok (recovery,l'),d') ∧
      Buried l' (sampleId 1) ∧ sampleId 1∉recovery.orphans := by
  have tidy : Meets Node.step KeepsTombstones (Node.reopened Io.good ⟨[],none,[]⟩)
      (sampleHistory++(Io.good,.call (.markPublished (sampleId 1)))::[(Io.good,.restart)]) := by
    refine ⟨?_,?_,?_,trivial⟩
    · exact tidy_append _ _ _ [] Io.good_syncs (by simp) (by decide) (by decide) (by decide)
    · exact tidy_append _ _ _ [.commit (sampleId 1) 50] Io.good_syncs (by simp) (by decide)
        (by decide) (by decide)
    · exact tidy_restart _ _ Io.good_syncs
  exact tombstone_permanent Io.good sampleHistory [(Io.good,.restart)] Io.good (sampleId 1) _ tidy
    rfl rfl

/-- The image a prune writes has no tombstones: after the next restart the id is
unpublished again, and a commit of it goes through. -/
theorem tombstone_lost_after_prune :
    let s₀ : Store := ⟨Caches.empty.recovered ⟨[],none,[]⟩,⟨[],none,[]⟩⟩
    let s₁ := (s₀.markPublished Io.good (sampleId 1)).2
    let s₂ := (s₁.commitConsumed Io.good (sampleId 2) 50 10).2
    let s₃ := (s₂.pruneExpired Io.good 60).2
    let s₄ : Store := ⟨Caches.empty.recovered s₃.disk,s₃.disk⟩
    reopen Io.good ⟨[],none,[]⟩=(.ok (Caches.empty.recovery,s₀.ledger),s₀.disk) ∧
    (s₀.markPublished Io.good (sampleId 1)).1=.ok () ∧ s₃.ledger.isPublished (sampleId 1)=true ∧
    (reopen Io.good s₃.disk).1=.ok (Caches.empty.recovery,s₄.ledger) ∧
    s₄.ledger.isPublished (sampleId 1)=false ∧
    (s₄.commitConsumed Io.good (sampleId 1) 90 60).2.ledger.isConsumed (sampleId 1)=true := by
  intro s₀ s₁ s₂ s₃ s₄
  have hlog : s₃.disk.log=ledgerFormat.encode []++[] := by decide
  exact ⟨rfl,by decide,by decide,congrArg Prod.fst
    (reopen_of_records Io.good Io.good_opens s₃.disk [] [] hlog ledgerFormat.torn_nil),
    by decide,by decide⟩

end Bolina.State
