import Bolina.State.LedgerErrors

namespace Bolina.State

open RecordLog GuardedRun KeyedFold

/-- A ledger's life: opened, recovered, called, in any order and any number of times. -/
inductive LedgerOp where
  | open
  | on (op : HandleOp)
  deriving DecidableEq

def Node.act (n : Node) : Io × LedgerOp → Node
  | (io,.open) =>
    match GrantLedger.open io n.disk with
    | (.error _,d) => ⟨none,d⟩
    | (.ok l,d) => ⟨some l,d⟩
  | (io,.on op) =>
    match n.ledger with
    | none => n
    | some l => (op.run io ⟨l,n.disk⟩).2.node

/-- A file that no process holds open. -/
def Disk.closed (d : Disk) : Node := ⟨none,d⟩

structure Caches.WithinCaps (c : Caches) : Prop where
  consumed : c.consumed.keys.length ≤ maxLive
  revoked : c.revoked.keys.length ≤ maxLive
  published : c.published.card ≤ maxLive

/-- The call would make one of the capped sets larger than its cap. -/
def Caches.Exceeds (c : Caches) : Call → Prop
  | .commitConsumed id expiryMs nowMs =>
    ¬c.Holds (.commit id expiryMs) ∧ maxLive ≤ c.consumed.keys.length ∧ c.expired nowMs=[]
  | .markPublished id => id∉c.published ∧ maxLive ≤ c.published.card
  | .commitRevocation pk _ => pk∉c.revoked ∧ maxLive ≤ c.revoked.keys.length
  | _ => False

/-- What the caps promise of one call: it is refused before it exceeds one, and a commit at the
cap makes room for itself when some grant has expired. -/
structure Honours (io : Io) (s : Store) (call : Call) : Prop where
  refused : s.ledger.Exceeds call → call.run io s=(.error .ResourceExhausted,s)
  room : ∀id expiryMs nowMs,call=.commitConsumed id expiryMs nowMs →
    maxLive ≤ s.ledger.consumed.keys.length → s.ledger.expired nowMs≠[] →
      (call.run io s).1≠.error .ResourceExhausted ∧ (io.Replaces → io.Appends → (call.run io s).1=.ok ())

def Node.Capped (n : Node) : Prop := ∀l,n.ledger=some l → l.WithinCaps

def Node.Owes (n : Node) (x : Io × LedgerOp) : Prop :=
  ∀l c,n.ledger=some l → x.2=.on (.call c) → Honours x.1 ⟨l,n.disk⟩ c

def publishedIds (rs : List Record) : List GrantId :=
  rs.filterMap fun | .published id => some id | _ => none

/-- The ids with a COMMIT that no PUBLISHED of theirs stands behind. -/
def liveIds : List Record → List GrantId
  | [] => []
  | .commit id _::rs => if .published id∈rs then liveIds rs else id::liveIds rs
  | _::rs => liveIds rs

structure FitsCaps (rs : List Record) : Prop where
  live : (liveIds rs).toFinset.card ≤ maxLive
  revoked : (revokes rs).keys.toFinset.card ≤ maxLive
  published : (publishedIds rs).toFinset.card ≤ maxLive

/-- A recovery reads a file within the caps, and a fresh id is published below the cap. -/
structure Node.Fits (n : Node) (x : Io × LedgerOp) : Prop where
  recover : ∀l,n.ledger=some l → x.2=.on .recover → l.file.isSome → x.1.seek=true → x.1.read=none →
    FitsCaps (ledgerFormat.records n.disk.log)
  publish : ∀l id,n.ledger=some l → x.2=.on (.call (.markPublished id)) →
    id∈l.published ∨ l.published.card < maxLive

section Counts

theorem closed_cons (r : Record) (rs : List Record) (id : GrantId) :
    Closed (r::rs) id ↔ (∀expiry,r=.commit id expiry → .published id∈rs) ∧ Closed rs id := by
  constructor
  · intro h
    refine ⟨?_,?_⟩
    · intro expiry heq
      obtain rfl := heq
      exact h [] expiry rs rfl
    · intro before expiry rest he
      exact h (r::before) expiry rest (by simp [he])
  · intro h before expiry rest he
    cases before with
    | nil =>
      obtain ⟨rfl,rfl⟩ := List.cons.inj he
      exact h.1 expiry rfl
    | cons x before =>
      obtain ⟨rfl,rfl⟩ := List.cons.inj he
      exact h.2 before expiry rest rfl

theorem mem_liveIds (rs : List Record) (id : GrantId) : id∈liveIds rs ↔ ¬Closed rs id := by
  induction rs with
  | nil => simp [liveIds,Closed]
  | cons r rs ih =>
    rw [closed_cons]
    cases r with
    | commit x expiry =>
      by_cases hp : .published x∈rs
      · have hid : ∀v,Record.commit x expiry=.commit id v → .published id∈rs := by
          intro v he
          cases he
          exact hp
        rw [liveIds,if_pos hp,ih]
        simp only [not_and_or]
        exact ⟨Or.inr,fun h => h.resolve_left (fun hn => hn hid)⟩
      · rw [liveIds,if_neg hp,List.mem_cons,ih,not_and_or]
        constructor
        · intro hw
          obtain rfl | hc := hw
          · exact Or.inl (fun h => hp (h expiry rfl))
          · exact Or.inr hc
        · intro hw
          obtain hn | hc := hw
          · left
            by_contra hne
            exact hn (fun v he => absurd (Record.commit.inj he).1.symm hne)
          · exact Or.inr hc
    | published x => simp [liveIds,ih]
    | revoke pk certExpiry => simp [liveIds,ih]
    | firstReceipt x time => simp [liveIds,ih]

theorem keys_card {n : Nat} (m : TimeMap n) : m.keys.toFinset.card=m.keys.length :=
  List.toFinset_card_of_nodup m.keys_nodup

/-- A replayed log is within the caps exactly if its records are. -/
theorem withinCaps_replayAll (rs : List Record) : (Caches.replayAll rs).WithinCaps ↔ FitsCaps rs := by
  have hlive : (Caches.replayAll rs).consumed.keys.toFinset=(liveIds rs).toFinset := by
    ext id
    rw [List.mem_toFinset,List.mem_toFinset,mem_liveIds,← consumed_replayAll_eq_none,← ne_eq,
      Option.ne_none_iff_isSome,AList.lookup_isSome,AList.mem_keys]
  have hrevoked : (Caches.replayAll rs).revoked.keys.toFinset=(revokes rs).keys.toFinset := by
    ext pk
    rw [List.mem_toFinset,List.mem_toFinset,← AList.mem_keys,← AList.lookup_isSome,revoked_replayAll,
      lookup_insertAll_reverse,AList.lookup_empty,Option.or_none,List.dlookup_isSome]
    simp [List.keys]
  have hpublished : (Caches.replayAll rs).published=(publishedIds rs).toFinset := by
    ext id
    rw [List.mem_toFinset,published_replayAll,publishedIds,List.mem_filterMap]
    constructor
    · intro h
      exact ⟨_,h,rfl⟩
    · intro hw
      obtain ⟨r,hr,he⟩ := hw
      cases r <;> simp_all
  constructor
  · intro h
    refine ⟨?_,?_,?_⟩
    · rw [← hlive,keys_card]
      exact h.consumed
    · rw [← hrevoked,keys_card]
      exact h.revoked
    · rw [← hpublished]
      exact h.published
  · intro h
    refine ⟨?_,?_,?_⟩
    · rw [← keys_card,hlive]
      exact h.live
    · rw [← keys_card,hrevoked]
      exact h.revoked
    · rw [hpublished]
      exact h.published

end Counts

section Calls

theorem dropExpired_subset (c : Caches) (nowMs : UInt64) (id : GrantId)
    (h : id∈(c.dropExpired nowMs).consumed) : id∈c.consumed := by
  rw [dropExpired_consumed,mem_eraseAll] at h
  exact h.1

/-- A prune that finds something makes room. -/
theorem dropExpired_room (c : Caches) (nowMs : UInt64) (he : c.expired nowMs≠[]) :
    (c.dropExpired nowMs).consumed.keys.length < c.consumed.keys.length := by
  obtain ⟨id,hid⟩ := List.exists_mem_of_ne_nil _ he
  obtain ⟨expiry,hl,_⟩ := (mem_expiredIds c nowMs id).mp hid
  have hmem : id∈c.consumed := AList.lookup_isSome.mp (by rw [hl]; rfl)
  have hgone : id∉(c.dropExpired nowMs).consumed := by
    rw [dropExpired_consumed,mem_eraseAll]
    exact fun h => h.2 hid
  exact keys_length_lt (dropExpired_subset c nowMs) hmem hgone

theorem Caches.WithinCaps.drop {c : Caches} (h : c.WithinCaps) (nowMs : UInt64) :
    (c.dropExpired nowMs).WithinCaps where
  consumed := (keys_length_le (dropExpired_subset c nowMs)).trans h.consumed
  revoked := h.revoked
  published := h.published

/-- A record that its mutator writes keeps the caps, a PUBLISHED only below its own. -/
theorem Caches.WithinCaps.apply {c : Caches} (h : c.WithinCaps) (r : Record) (hn : ¬c.Holds r) (hf : ¬c.Full r)
    (hp : ∀id,r=.published id → c.published.card < maxLive) : (c.apply r).WithinCaps := by
  cases r with
  | commit id expiry =>
    refine ⟨?_,h.revoked,h.published⟩
    have hid : id∉c.consumed := fun hm => hn (Or.inl hm)
    have hroom : c.consumed.keys.length < maxLive := Nat.not_le.mp hf
    show (c.consumed.insert id expiry).keys.length ≤ maxLive
    rw [keys_length_insert _ _ _ hid]
    exact hroom
  | published id =>
    refine ⟨?_,h.revoked,?_⟩
    · have hsub : ∀k∈c.consumed.erase id,k∈c.consumed := fun k hk => (AList.mem_erase.mp hk).2
      exact (keys_length_le hsub).trans h.consumed
    · have hid : id∉c.published := hn
      show (insert id c.published).card ≤ maxLive
      rw [Finset.card_insert_of_notMem hid]
      exact hp id rfl
  | revoke pk certExpiry =>
    refine ⟨h.consumed,?_,h.published⟩
    have hroom : c.revoked.keys.length < maxLive := Nat.not_le.mp hf
    show (c.revoked.insert pk certExpiry).keys.length ≤ maxLive
    rw [keys_length_insert _ _ _ hn]
    exact hroom
  | firstReceipt id time => exact ⟨h.consumed,h.revoked,h.published⟩

theorem logRecord_caches (io : Io) (s : Store) (r : Record) :
    ((s.logRecord io r).2.ledger.toCaches=s.ledger.toCaches ∨
      (s.logRecord io r).2.ledger.toCaches=s.ledger.apply r) ∧
    (s.logRecord io r).2.ledger.readOnly=s.ledger.readOnly := by
  obtain ⟨he,_⟩ | ⟨_,_,_,_,he,_⟩ | ⟨_,_,_,_,he⟩ := logRecord_cases io s r
  · rw [he]
    exact ⟨Or.inl rfl,rfl⟩
  · rw [he]
    exact ⟨Or.inl rfl,rfl⟩
  · rw [he]
    exact ⟨Or.inr rfl,rfl⟩

theorem pruneExpired_caches (io : Io) (s : Store) (nowMs : UInt64) :
    ((s.pruneExpired io nowMs).2.ledger.toCaches=s.ledger.toCaches ∨
      (s.pruneExpired io nowMs).2.ledger.toCaches=s.ledger.dropExpired nowMs) ∧
    (s.pruneExpired io nowMs).2.ledger.readOnly=s.ledger.readOnly := by
  obtain ⟨hp,_⟩ | ⟨hp,_⟩ | ⟨hp,hro,he⟩ := pruneExpired_cases io s nowMs
  · rw [hp]
    exact ⟨Or.inl rfl,rfl⟩
  · rw [hp]
    exact ⟨Or.inl rfl,rfl⟩
  · refine ⟨Or.inr (pruneExpired_drops io s nowMs hro he),?_⟩
    rw [hp]
    obtain ⟨temp,hw⟩ | ⟨e,hw⟩ | ⟨_,hw⟩ :=
      rewrite_cases io (s.dropped nowMs) ((s.ledger.dropExpired nowMs).image io)
    · rw [hw]
      rfl
    · rw [hw]
      rfl
    · rw [hw]
      rfl

theorem run_writable (io : Io) (s : Store) (call : Call) (h : s.ledger.readOnly=false) :
    (call.run io s).2.ledger.readOnly=false := by
  have hprune : ∀nowMs,(s.pruneExpired io nowMs).2.ledger.readOnly=false := fun nowMs => by
    rw [(pruneExpired_caches io s nowMs).2,h]
  apply run_preserves (P := fun s => s.ledger.readOnly=false) io s call h
  · intro nowMs _
    exact hprune nowMs
  · intro r _
    rw [(logRecord_caches io s r).2,h]
  · intro nowMs r _ _
    rw [(logRecord_caches io _ r).2,hprune nowMs]

theorem record_published (call : Call) (id : GrantId) (h : call.record=some (.published id)) :
    call=.markPublished id := by cases call <;> simp_all [Call.record]

theorem rewrites_record {c : Caches} {call : Call} {nowMs : UInt64} (h : call.Rewrites c nowMs) (id : GrantId) :
    call.record≠some (.published id) := by
  obtain ⟨_,rfl | ⟨_,_,rfl,_⟩⟩ := h <;> simp [Call.record]

/-- Every call keeps the caps, but for a PUBLISHED at its own. -/
theorem run_withinCaps (io : Io) (s : Store) (call : Call) (h : s.ledger.WithinCaps)
    (hp : ∀id,call=.markPublished id → id∈s.ledger.published ∨ s.ledger.published.card < maxLive) :
    (call.run io s).2.ledger.WithinCaps := by
  have hprune : ∀nowMs,(s.pruneExpired io nowMs).2.ledger.WithinCaps := by
    intro nowMs
    obtain ⟨hc | hc,_⟩ := pruneExpired_caches io s nowMs
    · rwa [hc]
    · rw [hc]
      exact h.drop nowMs
  apply run_preserves (P := fun s => s.ledger.WithinCaps) io s call h
  · intro nowMs _
    exact hprune nowMs
  · intro r hw
    obtain ⟨hc | hc,_⟩ := logRecord_caches io s r
    · rwa [hc]
    · rw [hc]
      apply h.apply r hw.2.1 hw.2.2
      intro id heq
      obtain rfl := heq
      exact (hp id (record_published call id hw.1)).resolve_left hw.2.1
  · intro nowMs r hw hok
    obtain ⟨hc | hc,_⟩ := logRecord_caches io (s.pruneExpired io nowMs).2 r
    · rw [hc]
      exact hprune nowMs
    · obtain ⟨_,_,he⟩ := pruneExpired_ok io s nowMs hw.1.1 hok
      have hpruned : (s.pruneExpired io nowMs).2.ledger.toCaches=s.ledger.dropExpired nowMs := by rw [he]; rfl
      rw [hc,hpruned]
      apply (h.drop nowMs).apply r (dropExpired_holds _ nowMs r (rewrites_fresh hw)) hw.2.2
      intro id heq
      obtain rfl := heq
      exact absurd hw.2.1 (rewrites_record hw.1 id)

theorem rewrite_refusal (io : Io) (s : Store) (image : List UInt8) :
    (s.rewrite io image).1≠.error .ResourceExhausted := by
  rw [Store.rewrite]
  cases io.createTemp with
  | false => simp
  | true =>
    cases io.writeTemp with
    | some k => simp
    | none => cases io.syncTemp <;> cases io.rename <;> cases io.reopen <;> cases io.relock <;> simp

theorem logRecord_refusal (io : Io) (s : Store) (r : Record) : (s.logRecord io r).1≠.error .ResourceExhausted := by
  obtain ⟨he,_⟩ | ⟨_,_,_,_,he,_⟩ | ⟨_,_,_,_,he⟩ := logRecord_cases io s r <;> rw [he] <;> simp

theorem pruneExpired_refusal (io : Io) (s : Store) (nowMs : UInt64) :
    (s.pruneExpired io nowMs).1≠.error .ResourceExhausted := by
  obtain ⟨hp,_⟩ | ⟨hp,_⟩ | ⟨hp,_⟩ := pruneExpired_cases io s nowMs
  · simp [hp]
  · simp [hp]
  · rw [hp]
    exact rewrite_refusal io _ _

/-- A fresh commit at the cap of a ledger within its caps goes on behind its prune. -/
theorem commit_makes_room (io : Io) (s : Store) (id : GrantId) (expiryMs nowMs : UInt64)
    (hro : s.ledger.readOnly=false) (hc : s.ledger.WithinCaps) (hh : ¬s.ledger.Holds (.commit id expiryMs))
    (hf : maxLive ≤ s.ledger.consumed.keys.length) (he : s.ledger.expired nowMs≠[]) :
    (s.commitConsumed io id expiryMs nowMs).1≠.error .ResourceExhausted ∧
      (io.Replaces → io.Appends → (s.commitConsumed io id expiryMs nowMs).1=.ok ()) := by
  have hroom : ¬maxLive ≤ (s.ledger.dropExpired nowMs).consumed.keys.length := by
    have h := dropExpired_room s.ledger.toCaches nowMs he
    have hcap := hc.consumed
    omega
  constructor
  · cases hp : s.pruneExpired io nowMs with
    | mk res s' =>
      cases res with
      | error e =>
        rw [commitConsumed_full_error io s s' id expiryMs nowMs e hh hf hp]
        have hne := pruneExpired_refusal io s nowMs
        rwa [hp] at hne
      | ok _ =>
        have hs' := pruneExpired_drops io s nowMs hro he
        rw [hp] at hs'
        rw [commitConsumed_full_ok io s s' id expiryMs nowMs hh hf hp,hs',if_neg hroom]
        exact logRecord_refusal io s' _
  · intro hio hap
    have hp := pruneExpired_of_replaces io s nowMs hio hro he
    rw [commitConsumed_full_ok io s _ id expiryMs nowMs hh hf hp]
    have hlog := logRecord_of_appends io
      ((s.dropped nowMs).replaced ((s.ledger.dropExpired nowMs).image io) (some 0)) (.commit id expiryMs) 0 hap hro rfl
    rw [hlog]
    exact congrArg Prod.fst (if_neg hroom)

theorem honours_commit (io : Io) (s : Store) (id : GrantId) (expiryMs nowMs : UInt64)
    (hro : s.ledger.readOnly=false) (hc : s.ledger.WithinCaps) :
    Honours io s (.commitConsumed id expiryMs nowMs) where
  refused h := by
    obtain ⟨hh,hf,he⟩ := h
    have hp : s.pruneExpired io nowMs=(.ok (),s) := by simp [Store.pruneExpired,hro,he]
    exact (commitConsumed_full_ok io s s id expiryMs nowMs hh hf hp).trans (if_pos hf)
  room := by
    intro id' expiryMs' nowMs' hcall hf he
    cases hcall
    by_cases hh : s.ledger.Holds (.commit id expiryMs)
    · have hrun : (Call.commitConsumed id expiryMs nowMs).run io s=(.ok (),s) := if_pos hh
      rw [hrun]
      exact ⟨by simp,fun _ _ => rfl⟩
    · exact commit_makes_room io s id expiryMs nowMs hro hc hh hf he

/-- What every call honours, but for a PUBLISHED at its own cap. -/
theorem run_honours (io : Io) (s : Store) (call : Call) (hro : s.ledger.readOnly=false) (hc : s.ledger.WithinCaps)
    (hp : ∀id,call=.markPublished id → id∈s.ledger.published ∨ s.ledger.published.card < maxLive) :
    Honours io s call := by
  cases call with
  | commitConsumed id expiryMs nowMs => exact honours_commit io s id expiryMs nowMs hro hc
  | markPublished id =>
    refine ⟨?_,by simp⟩
    intro h
    obtain hm | hl := hp id rfl
    · exact absurd hm h.1
    · exact absurd h.2 (Nat.not_le.mpr hl)
  | commitRevocation pk certExpiryMs =>
    refine ⟨?_,by simp⟩
    intro h
    have hn : pk∉s.ledger.revoked := h.1
    have hf : maxLive ≤ s.ledger.revoked.keys.length := h.2
    exact (if_neg hn).trans (if_pos hf)
  | recordFirstReceipt id timeMs => exact ⟨fun h => h.elim,by simp⟩
  | pruneExpired nowMs => exact ⟨fun h => h.elim,by simp⟩

/-- At its cap a fresh PUBLISHED is written or fails on the disk; it is never refused. -/
theorem publish_dishonours (io : Io) (s : Store) (id : GrantId) (hn : id∉s.ledger.published)
    (hf : maxLive ≤ s.ledger.published.card) : ¬Honours io s (.markPublished id) := by
  intro h
  have hrun : (Call.markPublished id).run io s=s.logRecord io (.published id) := if_neg hn
  have hre := h.refused ⟨hn,hf⟩
  rw [hrun] at hre
  exact logRecord_refusal io s _ (congrArg Prod.fst hre)

end Calls

section Runs

theorem recover_caches (io : Io) (s : Store) :
    (s.recover io).2.ledger.readOnly=s.ledger.readOnly ∧
    (s.ledger.file.isSome → io.seek=true → io.read=none →
      (s.recover io).2.ledger.toCaches=Caches.replayAll (ledgerFormat.records s.disk.log)) ∧
    (¬(s.ledger.file.isSome ∧ io.seek=true ∧ io.read=none) →
      (s.recover io).2.ledger.toCaches=s.ledger.toCaches) := by
  cases hf : s.ledger.file with
  | none => simp [Store.recover,hf]
  | some pos =>
    cases hs : io.seek with
    | false => simp [Store.recover,hf,hs]
    | true =>
      cases hr : io.read with
      | some k => simp [Store.recover,hf,hs,hr]
      | none =>
        have hloop := replayLoop_eq s.disk.log.length s.disk.log Caches.empty
        cases hok : (ledgerFormat.scan s.disk.log.length s.disk.log).2 with
        | true =>
          rw [hok] at hloop
          simp [Store.recover,hf,hs,hr,hloop,Caches.replayAll,Format.records]
        | false =>
          rw [hok] at hloop
          simp [Store.recover,hf,hs,hr,hloop,Caches.replayAll,Format.records]

def Node.Writable (n : Node) : Prop := ∀l,n.ledger=some l → l.readOnly=false

theorem act_open (n : Node) (io : Io) :
    (∃d,n.act (io,.open)=⟨none,d⟩) ∨
      ∃d,n.act (io,.open)=⟨some { Caches.empty with file := some 0,readOnly := false },d⟩ := by
  simp only [Node.act,GrantLedger.open]
  by_cases h1 : (!io.openFile)=true
  · simp [h1]
  · by_cases h2 : (!io.lock)=true
    · simp [h1,h2]
    · by_cases h3 : (n.disk.temp.isSome && !io.removeTemp)=true <;> simp [h1,h2,h3]

theorem act_on (io : Io) (l : GrantLedger) (d : Disk) (op : HandleOp) :
    (Node.act ⟨some l,d⟩ (io,.on op)).ledger=some (op.run io ⟨l,d⟩).2.ledger := rfl

theorem withinCaps_empty : Caches.empty.WithinCaps :=
  ⟨Nat.zero_le _,Nat.zero_le _,Nat.zero_le _⟩

theorem writable_act (n : Node) (x : Io × LedgerOp) (h : n.Writable) : (n.act x).Writable := by
  obtain ⟨io,op⟩ := x
  cases op with
  | «open» =>
    obtain ⟨d,ho⟩ | ⟨d,ho⟩ := act_open n io
    · rw [ho]
      intro l hl
      cases hl
    · rw [ho]
      intro l hl
      cases hl
      rfl
  | on op =>
    obtain ⟨ledger,d⟩ := n
    cases ledger with
    | none => exact h
    | some l =>
      intro l' hl'
      have hro : l.readOnly=false := h l rfl
      rw [act_on,Option.some.injEq] at hl'
      rw [← hl']
      cases op with
      | call c => exact run_writable io ⟨l,d⟩ c hro
      | recover => exact (recover_caches io ⟨l,d⟩).1.trans hro

theorem capped_call_iff (io : Io) (l : GrantLedger) (d : Disk) (c : Call) (hro : l.readOnly=false)
    (hcl : l.WithinCaps) :
    Honours io ⟨l,d⟩ c ∧ (c.run io ⟨l,d⟩).2.ledger.WithinCaps ↔ Node.Fits ⟨some l,d⟩ (io,.on (.call c)) := by
  constructor
  · intro h
    refine ⟨by simp,?_⟩
    intro l' id hl' hcall
    cases hl'
    cases hcall
    by_contra hn
    rw [not_or,Nat.not_lt] at hn
    exact publish_dishonours io ⟨l,d⟩ id hn.1 hn.2 h.1
  · intro h
    have hp : ∀id,c=.markPublished id → id∈l.published ∨ l.published.card < maxLive := by
      intro id heq
      obtain rfl := heq
      exact h.publish l id rfl rfl
    exact ⟨run_honours io ⟨l,d⟩ c hro hcl hp,run_withinCaps io ⟨l,d⟩ c hcl hp⟩

theorem capped_recover_iff (io : Io) (l : GrantLedger) (d : Disk) (hcl : l.WithinCaps) :
    (Store.recover io ⟨l,d⟩).2.ledger.WithinCaps ↔ Node.Fits ⟨some l,d⟩ (io,.on .recover) := by
  obtain ⟨_,hread,hkept⟩ := recover_caches io ⟨l,d⟩
  constructor
  · intro h
    refine ⟨?_,by simp⟩
    intro l' hl' _ hf hs hr
    cases hl'
    rw [← withinCaps_replayAll,← hread hf hs hr]
    exact h
  · intro h
    by_cases hok : l.file.isSome ∧ io.seek=true ∧ io.read=none
    · rw [hread hok.1 hok.2.1 hok.2.2,withinCaps_replayAll]
      exact h.recover l rfl rfl hok.1 hok.2.1 hok.2.2
    · rw [hkept hok]
      exact hcl

/-- One step of a ledger's life keeps the caps and honours them exactly if it fits. -/
theorem capped_act_iff (n : Node) (x : Io × LedgerOp) (hw : n.Writable) (hc : n.Capped) :
    n.Owes x ∧ (n.act x).Capped ↔ n.Fits x := by
  obtain ⟨io,op⟩ := x
  obtain ⟨ledger,d⟩ := n
  cases op with
  | «open» =>
    refine ⟨fun _ => ⟨by simp,by simp⟩,fun _ => ⟨by simp [Node.Owes],?_⟩⟩
    obtain ⟨d',ho⟩ | ⟨d',ho⟩ := act_open ⟨ledger,d⟩ io
    · rw [ho]
      intro l hl
      cases hl
    · rw [ho]
      intro l hl
      cases hl
      exact withinCaps_empty
  | on op =>
    cases ledger with
    | none => exact ⟨fun _ => ⟨by simp,by simp⟩,fun _ => ⟨by simp [Node.Owes],hc⟩⟩
    | some l =>
      have hro : l.readOnly=false := hw l rfl
      have hcl : l.WithinCaps := hc l rfl
      have hnext : (Node.act ⟨some l,d⟩ (io,.on op)).Capped ↔ (op.run io ⟨l,d⟩).2.ledger.WithinCaps := by
        simp [Node.Capped,act_on]
      rw [hnext]
      cases op with
      | call c =>
        have howes : Node.Owes ⟨some l,d⟩ (io,.on (.call c)) ↔ Honours io ⟨l,d⟩ c := by simp [Node.Owes]
        rw [howes]
        exact capped_call_iff io l d c hro hcl
      | recover =>
        have howes : Node.Owes ⟨some l,d⟩ (io,.on .recover) := by simp [Node.Owes]
        rw [and_iff_right howes]
        exact capped_recover_iff io l d hcl

/-- For any file and any sequence of opens, recoveries and calls: the caps hold in every state
and are honoured by every call exactly if every step fits. -/
theorem caps_iff (d : Disk) (ops : List (Io × LedgerOp)) :
    Meets Node.act Node.Owes d.closed ops ∧ Always Node.act Node.Capped d.closed ops ↔
      Meets Node.act Node.Fits d.closed ops := by
  apply meets_always_iff (I := Node.Writable) writable_act capped_act_iff
  · intro l hl
    cases hl
  · intro l hl
    cases hl

end Runs

def numberId (i : Nat) : GrantId := fixed 16 (BigEndian.beBytes 16 i)

/-- A log of `n` tombstones. -/
def numbered (n : Nat) : List Record := (List.range n).map fun i => .published (numberId i)

theorem numberId_inj {i j : Nat} (hi : i < 256^16) (hj : j < 256^16) (h : numberId i=numberId j) : i=j := by
  have hl := congrArg List.Vector.toList h
  rw [numberId,numberId,toList_fixed _ (BigEndian.beBytes_length 16 i),
    toList_fixed _ (BigEndian.beBytes_length 16 j)] at hl
  have hn := congrArg BigEndian.beNat hl
  rwa [BigEndian.beNat_beBytes,BigEndian.beNat_beBytes,Nat.mod_eq_of_lt hi,Nat.mod_eq_of_lt hj] at hn

theorem published_numbered (n : Nat) (hn : n ≤ 256^16) : (Caches.replayAll (numbered n)).published.card=n := by
  have himage : (Caches.replayAll (numbered n)).published=(Finset.range n).image numberId := by
    ext id
    rw [published_replayAll,numbered]
    simp [eq_comm]
  have hinj : Set.InjOn numberId (Finset.range n) := by
    intro i hi j hj h
    have hi' := Finset.mem_range.mp hi
    have hj' := Finset.mem_range.mp hj
    exact numberId_inj (by omega) (by omega) h
  rw [himage,Finset.card_image_of_injOn hinj,Finset.card_range]

theorem recover_numbered (n : Nat) :
    [(Io.good,LedgerOp.open),(Io.good,.on .recover)].foldl Node.act (Disk.of (numbered n)).closed=
      ⟨some ((Caches.replayAll (numbered n)).recovered (Disk.of (numbered n))),Disk.of (numbered n)⟩ := by
  have hrec := recover_of_records Io.good (Disk.of (numbered n)).opened.ledger (Disk.of (numbered n)) (numbered n) []
    rfl (by simp [Disk.of]) ledgerFormat.torn_nil rfl rfl
  have hstep : [(Io.good,LedgerOp.open),(Io.good,.on .recover)].foldl Node.act (Disk.of (numbered n)).closed=
      (Store.recover Io.good ⟨(Disk.of (numbered n)).opened.ledger,Disk.of (numbered n)⟩).2.node := rfl
  rw [hstep,hrec]
  rfl

theorem publish_numbered (n : Nat) (hn : n < 256^16) :
    ∃l,([(Io.good,LedgerOp.open),(Io.good,.on .recover),(Io.good,.on (.call (.markPublished (numberId n))))].foldl
      Node.act (Disk.of (numbered n)).closed).ledger=some l ∧ l.published.card=n+1 := by
  have hnew : numberId n∉(Caches.replayAll (numbered n)).published := by
    rw [published_replayAll,numbered,List.mem_map]
    intro hw
    obtain ⟨i,hi,he⟩ := hw
    have hlt := List.mem_range.mp hi
    have heq := numberId_inj (hlt.trans hn) hn (Record.published.inj he)
    omega
  have hlast : [(Io.good,LedgerOp.open),(Io.good,.on .recover),(Io.good,.on (.call (.markPublished (numberId n))))].foldl
      Node.act (Disk.of (numbered n)).closed=
        Node.act ([(Io.good,LedgerOp.open),(Io.good,.on .recover)].foldl Node.act (Disk.of (numbered n)).closed)
          (Io.good,.on (.call (.markPublished (numberId n)))) := rfl
  have hrun : (Call.markPublished (numberId n)).run Io.good
      ⟨(Caches.replayAll (numbered n)).recovered (Disk.of (numbered n)),Disk.of (numbered n)⟩=
        Store.logRecord Io.good ⟨(Caches.replayAll (numbered n)).recovered (Disk.of (numbered n)),Disk.of (numbered n)⟩
          (.published (numberId n)) := if_neg hnew
  rw [logRecord_of_appends Io.good _ _ _ Io.good_appends rfl rfl] at hrun
  rw [hlast,recover_numbered]
  refine ⟨_,act_on _ _ _ _,?_⟩
  rw [HandleOp.run,hrun]
  show (insert (numberId n) (Caches.replayAll (numbered n)).published).card=n+1
  rw [Finset.card_insert_of_notMem hnew,published_numbered n hn.le]

/-- A log with more tombstones than the cap is recovered whole, and a ledger at the cap
publishes one more. -/
theorem published_over_cap :
    ¬Always Node.act Node.Capped (Disk.of (numbered (maxLive+1))).closed
      [(Io.good,.open),(Io.good,.on .recover)] ∧
    ¬Always Node.act Node.Capped (Disk.of (numbered maxLive)).closed
      [(Io.good,.open),(Io.good,.on .recover),(Io.good,.on (.call (.markPublished (numberId maxLive))))] := by
  have hbig : maxLive+1 ≤ 256^16 := by decide
  constructor
  · intro h
    have hc := always_foldl _ _ h
    rw [recover_numbered] at hc
    have hcap := (hc _ rfl).published
    have hcard := published_numbered (maxLive+1) hbig
    simp only [Caches.recovered,hcard] at hcap
    omega
  · intro h
    obtain ⟨l,hl,hcard⟩ := publish_numbered maxLive hbig
    have hcap := (always_foldl _ _ h l hl).published
    omega

end Bolina.State
