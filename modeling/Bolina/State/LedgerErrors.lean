import Bolina.State.LedgerReplay

namespace Bolina.State

open RecordLog KeyedFold

/-- What may be asked of an open ledger. -/
inductive HandleOp where
  | call (c : Call)
  | recover
  deriving DecidableEq

def HandleOp.run (io : Io) (s : Store) : HandleOp → Except LedgerError Unit × Store
  | .call c => c.run io s
  | .recover => ((s.recover io).1.map fun _ => (),(s.recover io).2)

/-- The four maps and sets, as a query sees them. -/
structure SameMaps (c c' : Caches) : Prop where
  consumed : ∀id,c.consumed.lookup id=c'.consumed.lookup id
  published : c.published=c'.published
  revoked : ∀pk,c.revoked.lookup pk=c'.revoked.lookup pk
  firstReceipts : ∀id,c.firstReceipts.lookup id=c'.firstReceipts.lookup id

theorem sameMaps_refl (c : Caches) : SameMaps c c := ⟨fun _ => rfl,rfl,fun _ => rfl,fun _ => rfl⟩

/-- A handle through which a mutator can write. -/
def Store.Accepts (s : Store) : Prop := s.ledger.readOnly=false ∧ s.ledger.file.isSome

/-- A failed operation that has changed no map and cost no handle. -/
structure Atomic (s s' : Store) : Prop where
  maps : SameMaps s'.ledger.toCaches s.ledger.toCaches
  accepts : s.Accepts → s'.Accepts

/-- The COMMIT of the id that no other COMMIT and no PUBLISHED of it stands behind. -/
def LastCommit (rs : List Record) (id : GrantId) (expiry : UInt64) : Prop :=
  ∃before rest,rs=before++.commit id expiry::rest ∧ .published id∉rest ∧ ∀later,.commit id later∉rest

/-- The maps say what the records say: the last COMMIT of an id unless a PUBLISHED stands
behind it, the last REVOKE of a key and the first anchor of an id. -/
structure LogSays (rs : List Record) (c : Caches) : Prop where
  consumed : ∀id expiry,c.consumed.lookup id=some expiry ↔ LastCommit rs id expiry
  published : ∀id,id∈c.published ↔ .published id∈rs
  revoked : ∀pk,c.revoked.lookup pk=(revokes rs).reverse.dlookup pk
  firstReceipts : ∀id,c.firstReceipts.lookup id=(anchors rs).dlookup id

/-- The operation rewrites no file, and meets no log with a stray byte behind records that
say anything else than the maps. -/
def HandleOp.Harmless (io : Io) (s : Store) : HandleOp → Prop
  | .call c => ∀nowMs,c.Rewrites s.ledger.toCaches nowMs → s.ledger.readOnly=true
  | .recover => s.ledger.file.isSome → io.seek=true → io.read=none →
      ∀rs p,s.disk.log=ledgerFormat.encode rs++p → ledgerFormat.Stray p → LogSays rs s.ledger.toCaches

section Mutators

/-- A mutator with something to write succeeds on a disk that writes exactly through an
accepting handle. -/
theorem accepts_iff (io : Io) (hio : io.Appends) (s : Store) (call : Call) (r : Record)
    (hw : call.Writes s.ledger.toCaches r) : (call.run io s).1=.ok () ↔ s.Accepts := by
  rw [run_of_writes io s call r hw]
  obtain ⟨he,hn⟩ | ⟨_,_,_,_,he,⟨_,_,hs⟩ | ⟨_,_,hwr⟩⟩ | ⟨pos,hro,hf,_,he⟩ := logRecord_cases io s r
  · rw [he]
    simp [Store.Accepts]
    intro hro
    simpa [hro] using hn
  · rw [hio.sync] at hs
    cases hs
  · exact absurd hio.write hwr
  · rw [he]
    simp [Store.Accepts,hro,hf]

theorem logRecord_error (io : Io) (s : Store) (r : Record) (e : LedgerError)
    (h : (s.logRecord io r).1=.error e) :
    (s.logRecord io r).2.ledger.toCaches=s.ledger.toCaches ∧ (s.Accepts → (s.logRecord io r).2.Accepts) := by
  obtain ⟨he,_⟩ | ⟨pos,put,hro,_,he,_⟩ | ⟨pos,_,_,_,he⟩ := logRecord_cases io s r
  · rw [he]
    exact ⟨rfl,fun h => h⟩
  · rw [he]
    exact ⟨rfl,fun _ => ⟨hro,rfl⟩⟩
  · rw [he] at h
    cases h

/-- A prune that finds something to drop has dropped it when it returns, whatever the
rewrite comes to. -/
theorem pruneExpired_drops (io : Io) (s : Store) (nowMs : UInt64) (hro : s.ledger.readOnly=false)
    (he : s.ledger.expired nowMs≠[]) :
    (s.pruneExpired io nowMs).2.ledger.toCaches=s.ledger.dropExpired nowMs := by
  obtain ⟨_,hn⟩ | ⟨_,_,hn⟩ | ⟨hp,_,_⟩ := pruneExpired_cases io s nowMs
  · rw [hro] at hn
    cases hn
  · exact absurd hn he
  · rw [hp]
    obtain ⟨temp,hw⟩ | ⟨e,hw⟩ | ⟨_,hw⟩ :=
      rewrite_cases io (s.dropped nowMs) ((s.ledger.dropExpired nowMs).image io)
    · rw [hw]
      rfl
    · rw [hw]
      rfl
    · rw [hw]
      rfl

/-- A call that rewrites the file and fails leaves the caches pruned. -/
theorem rewrites_error (io : Io) (s : Store) (call : Call) (nowMs : UInt64) (e : LedgerError)
    (hrw : call.Rewrites s.ledger.toCaches nowMs) (hro : s.ledger.readOnly=false)
    (h : (call.run io s).1=.error e) :
    (call.run io s).2.ledger.toCaches=s.ledger.dropExpired nowMs := by
  obtain ⟨he,rfl | ⟨id,expiryMs,rfl,hh,hf⟩⟩ := hrw
  · exact pruneExpired_drops io s nowMs hro he
  · have hdrop := pruneExpired_drops io s nowMs hro he
    have hrun : (Call.commitConsumed id expiryMs nowMs).run io s=s.commitConsumed io id expiryMs nowMs := rfl
    rw [hrun] at h ⊢
    cases hp : s.pruneExpired io nowMs with
    | mk res s' =>
      rw [hp] at hdrop
      cases res with
      | error e' => rwa [commitConsumed_full_error io s s' id expiryMs nowMs e' hh hf hp]
      | ok _ =>
        rw [commitConsumed_full_ok io s s' id expiryMs nowMs hh hf hp] at h ⊢
        split_ifs at h ⊢ with hfull
        · exact hdrop
        · rw [(logRecord_error io s' _ e h).1]
          exact hdrop

/-- A prune that drops something is seen by a query. -/
theorem not_sameMaps_dropped (c : Caches) (nowMs : UInt64) (he : c.expired nowMs≠[]) :
    ¬SameMaps (c.dropExpired nowMs) c := by
  intro h
  obtain ⟨id,hid⟩ := List.exists_mem_of_ne_nil _ he
  obtain ⟨expiry,hl,hle⟩ := (mem_expiredIds c nowMs id).mp hid
  have hkept := (h.consumed id).trans hl
  rw [lookup_dropExpired] at hkept
  exact absurd hkept.2 (UInt64.not_lt.mpr hle)

/-- A call that rewrites nothing and fails has changed no map and keeps its handle. -/
theorem plain_error (io : Io) (s : Store) (call : Call) (e : LedgerError)
    (hn : ∀nowMs,¬call.Rewrites s.ledger.toCaches nowMs) (h : (call.run io s).1=.error e) :
    Atomic s (call.run io s).2 := by
  obtain ⟨res,hrun,_⟩ | ⟨nowMs,_,hrw,_⟩ | ⟨r,_,hrun⟩ | ⟨nowMs,r,hw,_⟩ := run_cases io s call
  · rw [hrun]
    exact ⟨sameMaps_refl _,fun h => h⟩
  · exact absurd hrw (hn nowMs)
  · rw [hrun] at h ⊢
    obtain ⟨hc,ha⟩ := logRecord_error io s r e h
    exact ⟨hc ▸ sameMaps_refl _,ha⟩
  · exact absurd hw.1 (hn nowMs)

theorem readOnly_run (io : Io) (s : Store) (call : Call) (hro : s.ledger.readOnly=true) : (call.run io s).2=s := by
  have hprune : ∀nowMs,s.pruneExpired io nowMs=(.error .DiskError,s) := fun nowMs => if_pos hro
  obtain ⟨res,hrun,_⟩ | ⟨nowMs,_,_,hrun,_⟩ | ⟨r,_,hrun⟩ | ⟨nowMs,_,_,hp,_⟩ := run_cases io s call
  · rw [hrun]
  · rw [hrun,hprune]
  · rw [hrun]
    simp [Store.logRecord,Store.append,hro]
  · rw [hprune] at hp
    cases hp

/-- A failed mutator is atomic unless it was a prune under way, in its own right or inside a
commit. -/
theorem call_error_iff (io : Io) (s : Store) (call : Call) (e : LedgerError)
    (h : (call.run io s).1=.error e) :
    Atomic s (call.run io s).2 ↔ ∀nowMs,call.Rewrites s.ledger.toCaches nowMs → s.ledger.readOnly=true := by
  constructor
  · intro ha nowMs hrw
    cases hro : s.ledger.readOnly with
    | true => rfl
    | false =>
      have hm := ha.maps
      rw [rewrites_error io s call nowMs e hrw hro h] at hm
      exact absurd hm (not_sameMaps_dropped _ nowMs hrw.1)
  · intro hn
    cases hro : s.ledger.readOnly with
    | true =>
      rw [readOnly_run io s call hro]
      exact ⟨sameMaps_refl _,fun h => h⟩
    | false =>
      apply plain_error io s call e _ h
      intro nowMs hrw
      rw [hn nowMs hrw] at hro
      cases hro

end Mutators

section Recover

theorem lastCommit_snoc (rs : List Record) (r : Record) (id : GrantId) (expiry : UInt64) :
    LastCommit (rs++[r]) id expiry ↔
      r=.commit id expiry ∨ LastCommit rs id expiry ∧ r≠.published id ∧ ∀later,r≠.commit id later := by
  constructor
  · intro hw
    obtain ⟨before,rest,he,hp,hc⟩ := hw
    obtain ⟨rest',rfl,hrs⟩ | ⟨_,_,hr⟩ := (Lockstep.split_concat rs before rest r _).mp he
    · right
      simp only [List.mem_append,List.mem_singleton,not_or] at hp hc
      exact ⟨⟨before,rest',hrs,hp.1,fun later => (hc later).1⟩,fun h => hp.2 h.symm,fun later h => (hc later).2 h.symm⟩
    · exact Or.inl hr
  · intro hw
    obtain rfl | ⟨⟨before,rest,rfl,hp,hc⟩,hnp,hnc⟩ := hw
    · exact ⟨rs,[],rfl,by simp,by simp⟩
    · refine ⟨before,rest++[r],by simp,?_,?_⟩
      · simp [hp,hnp.symm]
      · intro later
        simp [hc later,(hnc later).symm]

theorem lastCommit_replayAll (rs : List Record) (id : GrantId) (expiry : UInt64) :
    (Caches.replayAll rs).consumed.lookup id=some expiry ↔ LastCommit rs id expiry := by
  induction rs using List.reverseRecOn with
  | nil => simp [Caches.replayAll,Caches.empty,LastCommit]
  | append_singleton rs r ih =>
    rw [replayAll_snoc,lastCommit_snoc,← ih,lookup_replay]
    cases r with
    | commit x v =>
      by_cases hx : id=x
      · subst hx
        simp
      · have hx' : x≠id := fun he => hx he.symm
        simp [hx,hx']
    | published x =>
      by_cases hx : id=x
      · subst hx
        simp
      · have hx' : x≠id := fun he => hx he.symm
        simp [hx,hx']
    | revoke pk certExpiry => simp
    | firstReceipt x time => simp

theorem logSays_replayAll (rs : List Record) : LogSays rs (Caches.replayAll rs) where
  consumed := lastCommit_replayAll rs
  published := published_replayAll rs
  revoked pk := by
    rw [revoked_replayAll,lookup_insertAll_reverse]
    simp
  firstReceipts id := by
    rw [firstReceipts_replayAll,lookup_insertNew]
    simp

/-- The records of a log determine the maps. -/
theorem logSays_iff (rs : List Record) (c : Caches) : LogSays rs c ↔ SameMaps (Caches.replayAll rs) c := by
  have h := logSays_replayAll rs
  constructor
  · intro hc
    refine ⟨?_,?_,?_,?_⟩
    · intro id
      ext expiry
      rw [h.consumed,hc.consumed]
    · ext id
      rw [h.published,hc.published]
    · intro pk
      rw [h.revoked,hc.revoked]
    · intro id
      rw [h.firstReceipts,hc.firstReceipts]
  · intro hs
    refine ⟨?_,?_,?_,?_⟩
    · intro id expiry
      rw [← hs.consumed]
      exact h.consumed id expiry
    · intro id
      rw [← hs.published]
      exact h.published id
    · intro pk
      rw [← hs.revoked]
      exact h.revoked pk
    · intro id
      rw [← hs.firstReceipts]
      exact h.firstReceipts id

theorem replayLoop_stray (rs : List Record) (p : List UInt8) (hp : ledgerFormat.Stray p) (k : Nat)
    (hk : (ledgerFormat.encode rs++p).length ≤ k) :
    Caches.replayLoop k (ledgerFormat.encode rs++p) Caches.empty=(.error .BadLog,Caches.replayAll rs) := by
  rw [replayLoop_eq,ledgerFormat.scan_stray k rs p hp hk]
  rfl

/-- What a recovery can fail with: a closed or unreadable file, which changes nothing but the
cursor, or a stray byte, with the records in front of it replayed. -/
theorem recover_error (io : Io) (s : Store) (e : LedgerError) (h : (s.recover io).1=.error e) :
    ((s.recover io).2=s ∧ (s.ledger.file=none ∨ io.seek=false)) ∨
    (∃k,io.read=some k ∧ (s.recover io).2={ s with ledger := { s.ledger with file := some k } }) ∨
    (s.ledger.file.isSome ∧ io.seek=true ∧ io.read=none ∧ ∃rs p,s.disk.log=ledgerFormat.encode rs++p ∧
      ledgerFormat.Stray p ∧ (s.recover io).2=
        { s with ledger := { s.ledger with toCaches := Caches.replayAll rs,file := some s.disk.log.length } }) := by
  cases hf : s.ledger.file with
  | none =>
    left
    simp [Store.recover,hf]
  | some pos =>
    cases hs : io.seek with
    | false =>
      left
      simp [Store.recover,hf,hs]
    | true =>
      cases hr : io.read with
      | some k =>
        right; left
        exact ⟨k,rfl,by simp [Store.recover,hf,hs,hr]⟩
      | none =>
        right; right
        obtain ⟨rs,p,hlog,ht | hp⟩ := ledgerFormat.exists_split ledger_total s.disk.log
        · have hrec := recover_of_records io s.ledger s.disk rs p (by simp [hf]) hlog ht hs hr
          rw [hrec] at h
          cases h
        · refine ⟨rfl,rfl,rfl,rs,p,hlog,hp,?_⟩
          have hloop : Caches.replayLoop s.disk.log.length s.disk.log Caches.empty=
              (.error .BadLog,Caches.replayAll rs) := by
            rw [hlog]
            exact replayLoop_stray rs p hp _ (Nat.le_refl _)
          simp [Store.recover,hf,hs,hr,hloop]

/-- A failed recovery is atomic unless it was a stray byte behind records that say something
else than the maps. -/
theorem recover_error_iff (io : Io) (s : Store) (e : LedgerError) (h : (s.recover io).1=.error e) :
    Atomic s (s.recover io).2 ↔ HandleOp.recover.Harmless io s := by
  obtain ⟨hrun,hn⟩ | ⟨k,hr,hrun⟩ | ⟨hf,hs,hr,rs,p,hlog,hp,hrun⟩ := recover_error io s e h
  · rw [hrun]
    refine ⟨?_,fun _ => ⟨sameMaps_refl _,fun ha => ha⟩⟩
    intro _ hf hs
    obtain hn | hn := hn
    · simp [hn] at hf
    · simp [hn] at hs
  · rw [hrun]
    refine ⟨?_,fun _ => ⟨sameMaps_refl _,fun ha => ⟨ha.1,rfl⟩⟩⟩
    intro _ _ _ hn
    simp [hr] at hn
  · have hmaps : (s.recover io).2.ledger.toCaches=Caches.replayAll rs := by rw [hrun]
    constructor
    · intro ha _ _ _ rs' p' hlog' hp'
      have hsame : rs'=rs := by
        have hscan := ledgerFormat.scan_stray s.disk.log.length rs p hp (by simp [hlog])
        have hscan' := ledgerFormat.scan_stray s.disk.log.length rs' p' hp' (by simp [hlog'])
        rw [← hlog] at hscan
        rw [← hlog',hscan] at hscan'
        exact (congrArg Prod.fst hscan').symm
      have hm := ha.maps
      rw [hmaps] at hm
      rw [hsame]
      exact (logSays_iff rs _).mpr hm
    · intro hh
      refine ⟨?_,?_⟩
      · rw [hmaps]
        exact (logSays_iff rs _).mp (hh hf hs hr rs p hlog hp)
      · intro ha
        rw [hrun]
        exact ⟨ha.1,rfl⟩

end Recover

/-- An operation that has failed left the maps and the handle alone exactly if it was no prune
under way and no recovery that met a stray byte. -/
theorem handle_error_atomic_iff (io : Io) (s : Store) (op : HandleOp) (e : LedgerError)
    (h : (op.run io s).1=.error e) : Atomic s (op.run io s).2 ↔ op.Harmless io s := by
  cases op with
  | call c => exact call_error_iff io s c e h
  | recover =>
    have hrec : (s.recover io).1=.error e := by
      cases hr : (s.recover io).1 with
      | error e' => simpa [HandleOp.run,hr,Except.map] using h
      | ok recovery => simp [HandleOp.run,hr,Except.map] at h
    exact recover_error_iff io s e hrec

/-- One grant, expired at 50, in the caches and in the file. -/
def oneGrant : Store := ((Disk.of [.commit (sampleId 1) 50]).opened.recover Io.good).2

theorem handle_error_atomic_iff_sample :
    Atomic oneGrant ((HandleOp.call (.pruneExpired 100)).run { Io.good with createTemp := false } oneGrant).2 ↔
      (HandleOp.call (.pruneExpired 100)).Harmless { Io.good with createTemp := false } oneGrant :=
  handle_error_atomic_iff _ oneGrant (.call (.pruneExpired 100)) .DiskError (by decide)

def strayByte : Store := { oneGrant with disk := ⟨[9],none,[9]⟩ }

/-- A rename that fails has cost the caches a grant that the file keeps, a reopen that fails the
handle too, and a stray byte in front of the first record every grant. -/
theorem failed_ops_change_caches :
    ((oneGrant.pruneExpired { Io.good with rename := false } 100).1=.error .DiskError ∧
      (oneGrant.pruneExpired { Io.good with rename := false } 100).2.disk.log=oneGrant.disk.log ∧
      ¬Atomic oneGrant (oneGrant.pruneExpired { Io.good with rename := false } 100).2) ∧
    ((oneGrant.pruneExpired { Io.good with reopen := false } 100).1=.error .DiskError ∧
      oneGrant.Accepts ∧ ¬(oneGrant.pruneExpired { Io.good with reopen := false } 100).2.Accepts) ∧
    ((strayByte.recover Io.good).1=.error .BadLog ∧ ¬Atomic strayByte (strayByte.recover Io.good).2) := by
  have changed : ∀s s' : Store,s.ledger.consumed.lookup (sampleId 1)=some 50 →
      s'.ledger.consumed.lookup (sampleId 1)=none → ¬Atomic s s' := by
    intro s s' hs hs' h
    have hl := h.maps.consumed (sampleId 1)
    rw [hs,hs'] at hl
    cases hl
  refine ⟨⟨by decide,by decide,?_⟩,⟨by decide,⟨rfl,rfl⟩,?_⟩,by decide,?_⟩
  · exact changed _ _ (by decide) (by decide)
  · intro h
    exact absurd h.2 (by decide)
  · exact changed _ _ (by decide) (by decide)

end Bolina.State
