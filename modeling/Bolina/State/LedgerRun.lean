import Bolina.State.Ledger

namespace Bolina.State

open RecordLog

inductive Call where
  | commitConsumed (id : GrantId) (expiryMs nowMs : UInt64)
  | markPublished (id : GrantId)
  | commitRevocation (pk : SigPubkey) (certExpiryMs : UInt64)
  | recordFirstReceipt (id : GrantId) (timeMs : UInt64)
  | pruneExpired (nowMs : UInt64)
  deriving DecidableEq

def Call.run (io : Io) (s : Store) : Call → Except LedgerError Unit × Store
  | .commitConsumed id expiryMs nowMs => s.commitConsumed io id expiryMs nowMs
  | .markPublished id => s.markPublished io id
  | .commitRevocation pk certExpiryMs => s.commitRevocation io pk certExpiryMs
  | .recordFirstReceipt id timeMs => s.recordFirstReceipt io id timeMs
  | .pruneExpired nowMs => s.pruneExpired io nowMs

/-- The record a call is there to write. -/
def Call.record : Call → Option Record
  | .commitConsumed id expiryMs _ => some (.commit id expiryMs)
  | .markPublished id => some (.published id)
  | .commitRevocation pk certExpiryMs => some (.revoke pk certExpiryMs)
  | .recordFirstReceipt id timeMs => some (.firstReceipt id timeMs)
  | .pruneExpired _ => none

/-- The caches already say what the record would: its mutator is a no-op. -/
def Caches.Holds (c : Caches) : Record → Prop
  | .commit id _ => id∈c.consumed ∨ id∈c.published
  | .published id => id∈c.published
  | .revoke pk _ => pk∈c.revoked
  | .firstReceipt id _ => id∈c.firstReceipts

instance (c : Caches) (r : Record) : Decidable (c.Holds r) :=
  match r with
  | .commit _ _ => inferInstanceAs (Decidable (_ ∨ _))
  | .published _ => inferInstanceAs (Decidable (_ ∈ _))
  | .revoke _ _ => inferInstanceAs (Decidable (_ ∈ _))
  | .firstReceipt _ _ => inferInstanceAs (Decidable (_ ∈ _))

def Caches.Full (c : Caches) : Record → Prop
  | .commit _ _ => maxLive ≤ c.consumed.keys.length
  | .revoke _ _ => maxLive ≤ c.revoked.keys.length
  | _ => False

/-- The record a call appends without rewriting the file first. -/
def Call.Writes (c : Caches) (call : Call) (r : Record) : Prop :=
  call.record=some r ∧ ¬c.Holds r ∧ ¬c.Full r

/-- The time of the prune with which a call rewrites the file: a prune that finds
something expired, or a fresh commit at the cap. -/
def Call.Rewrites (c : Caches) (call : Call) (nowMs : UInt64) : Prop :=
  c.expired nowMs≠[] ∧ (call=.pruneExpired nowMs ∨ ∃id expiryMs,
    call=.commitConsumed id expiryMs nowMs ∧ ¬c.Holds (.commit id expiryMs) ∧
      c.Full (.commit id expiryMs))

/-- The record a call appends to a file it has just rewritten. -/
def Call.WritesAfter (c : Caches) (call : Call) (nowMs : UInt64) (r : Record) : Prop :=
  call.Rewrites c nowMs ∧ call.record=some r ∧ ¬(c.dropExpired nowMs).Full r

theorem replay_of_fresh (c : Caches) (r : Record) (h : ¬c.Holds r) : c.replay r=c.apply r := by
  cases r with
  | commit id expiry =>
    have hf : id∉c.published ∧ id∉c.consumed := by
      simp only [Caches.Holds,not_or] at h
      exact ⟨h.2,h.1⟩
    simp [Caches.replay,Caches.apply,hf]
  | published id => rfl
  | revoke pk certExpiry => rfl
  | firstReceipt id time =>
    have hf : id∉c.firstReceipts := h
    simp [Caches.replay,Caches.apply,hf]

/-- The store with `put` written at the cursor `pos`. -/
def Store.put (s : Store) (pos : Nat) (put : Bytes) : Store :=
  ⟨{ s.ledger with file := some (pos+put.length) },
    { s.disk with log := writeAt 0 s.disk.log pos put }⟩

/-- The store after a record has been appended, synced and folded in. -/
def Store.logged (s : Store) (pos : Nat) (r : Record) : Store :=
  ⟨{ s.ledger with toCaches := s.ledger.apply r,file := some (pos+r.bytes.length) },
    { s.disk with log := writeAt 0 s.disk.log pos r.bytes
                  synced := writeAt 0 s.disk.log pos r.bytes }⟩

/-- The store after the cached part of a prune. -/
def Store.dropped (s : Store) (nowMs : UInt64) : Store :=
  { s with ledger := { s.ledger with toCaches := s.ledger.dropExpired nowMs } }

/-- The store after its file has been replaced by `image`. -/
def Store.replaced (s : Store) (image : Bytes) (file : Option Nat) : Store :=
  ⟨{ s.ledger with file },⟨image,none,image⟩⟩

/-- The store after a rewrite that stopped before the rename. -/
def Store.staged (s : Store) (temp : Option Bytes) : Store := { s with disk := { s.disk with temp } }

/-- Every step of a rewrite succeeds. -/
structure Io.Replaces (io : Io) : Prop where
  createTemp : io.createTemp=true
  writeTemp : io.writeTemp=none
  syncTemp : io.syncTemp=true
  rename : io.rename=true
  reopen : io.reopen=true
  relock : io.relock=true

/-- An append writes the whole record and syncs it. -/
structure Io.Appends (io : Io) : Prop where
  write : io.write=none
  sync : io.sync=true

theorem logRecord_cases (io : Io) (s : Store) (r : Record) :
    (s.logRecord io r=(.error .DiskError,s) ∧ (s.ledger.readOnly=true ∨ s.ledger.file=none)) ∨
    (∃pos put,s.ledger.readOnly=false ∧ s.ledger.file=some pos ∧
      s.logRecord io r=(.error .DiskError,s.put pos put) ∧
      (put=r.bytes ∧ io.write=none ∧ io.sync=false ∨
        put<+:r.bytes ∧ put.length < r.bytes.length ∧ io.write≠none)) ∨
    (∃pos,s.ledger.readOnly=false ∧ s.ledger.file=some pos ∧ io.Appends ∧
      s.logRecord io r=(.ok (),s.logged pos r)) := by
  cases hro : s.ledger.readOnly with
  | true =>
    left
    simp [Store.logRecord,Store.append,hro]
  | false =>
    cases hf : s.ledger.file with
    | none =>
      left
      simp [Store.logRecord,Store.append,hro,hf]
    | some pos =>
      right
      cases hw : io.write with
      | some k =>
        left
        have hpos := ledgerFormat.bytes_length_pos r
        refine ⟨pos,r.bytes.dropLast.take k,rfl,rfl,?_,Or.inr ⟨?_,?_,by simp⟩⟩
        · simp [Store.logRecord,Store.append,Store.put,hro,hf,hw]
        · exact (List.take_prefix _ _).trans (List.dropLast_prefix _)
        · simp only [List.length_take,List.length_dropLast]
          change 0 < r.bytes.length at hpos
          omega
      | none =>
        cases hs : io.sync with
        | false =>
          left
          refine ⟨pos,r.bytes,rfl,rfl,?_,Or.inl ⟨rfl,rfl,rfl⟩⟩
          simp [Store.logRecord,Store.append,Store.put,hro,hf,hw,hs]
        | true =>
          right
          refine ⟨pos,rfl,rfl,⟨hw,hs⟩,?_⟩
          simp [Store.logRecord,Store.append,Store.logged,hro,hf,hw,hs]

/-- A rewrite stops before the rename, or replaces the file and is then left with
a handle at its start or with none. -/
theorem rewrite_cases (io : Io) (s : Store) (image : Bytes) :
    (∃temp,s.rewrite io image=(.error .DiskError,s.staged temp)) ∨
    (∃e,s.rewrite io image=(.error e,s.replaced image none)) ∨
    (io.Replaces ∧ s.rewrite io image=(.ok (),s.replaced image (some 0))) := by
  rw [Store.rewrite]
  cases hc : io.createTemp with
  | false => exact Or.inl ⟨s.disk.temp,rfl⟩
  | true =>
    cases hw : io.writeTemp with
    | some k => exact Or.inl ⟨some (image.take k),rfl⟩
    | none =>
      by_cases hr : io.syncTemp=true ∧ io.rename=true
      · right
        cases ho : io.reopen with
        | false =>
          left
          exact ⟨.DiskError,by simp [hr,Store.replaced]⟩
        | true =>
          cases hl : io.relock with
          | false =>
            left
            exact ⟨.Locked,by simp [hr,Store.replaced]⟩
          | true =>
            right
            exact ⟨⟨hc,hw,hr.1,hr.2,ho,hl⟩,by simp [hr,Store.replaced]⟩
      · left
        have hb : (!io.syncTemp || !io.rename)=true := by
          cases hs : io.syncTemp <;> cases hm : io.rename <;> simp_all
        exact ⟨some image,by simp [hb,Store.staged]⟩

/-- A prune that finds nothing expired is a no-op; otherwise it rewrites the file
to the image of what it keeps. -/
theorem pruneExpired_cases (io : Io) (s : Store) (nowMs : UInt64) :
    (s.pruneExpired io nowMs=(.error .DiskError,s) ∧ s.ledger.readOnly=true) ∨
    (s.pruneExpired io nowMs=(.ok (),s) ∧ s.ledger.readOnly=false ∧ s.ledger.expired nowMs=[]) ∨
    (s.pruneExpired io nowMs=
        (s.dropped nowMs).rewrite io ((s.ledger.dropExpired nowMs).image io) ∧
      s.ledger.readOnly=false ∧ s.ledger.expired nowMs≠[]) := by
  cases hro : s.ledger.readOnly with
  | true => exact Or.inl ⟨by simp [Store.pruneExpired,hro],rfl⟩
  | false =>
    by_cases he : s.ledger.expired nowMs=[]
    · exact Or.inr (Or.inl ⟨by simp [Store.pruneExpired,hro,he],rfl,he⟩)
    · exact Or.inr (Or.inr ⟨by simp [Store.pruneExpired,Store.dropped,hro,he],rfl,he⟩)

/-- A commit at the cap fails with the prune it starts with. -/
theorem commitConsumed_full_error (io : Io) (s s' : Store) (id : GrantId) (expiryMs nowMs : UInt64)
    (e : LedgerError) (hh : ¬s.ledger.Holds (.commit id expiryMs)) (hf : s.ledger.Full (.commit id expiryMs))
    (hp : s.pruneExpired io nowMs=(.error e,s')) :
    s.commitConsumed io id expiryMs nowMs=(.error e,s') := by
  refine (if_neg hh).trans ((if_pos hf).trans ?_)
  rw [hp]

/-- Behind its prune, a commit at the cap looks at the cap again. -/
theorem commitConsumed_full_ok (io : Io) (s s' : Store) (id : GrantId) (expiryMs nowMs : UInt64)
    (hh : ¬s.ledger.Holds (.commit id expiryMs)) (hf : s.ledger.Full (.commit id expiryMs))
    (hp : s.pruneExpired io nowMs=(.ok (),s')) :
    s.commitConsumed io id expiryMs nowMs=
      if maxLive ≤ s'.ledger.consumed.keys.length then (.error .ResourceExhausted,s')
      else s'.logRecord io (.commit id expiryMs) := by
  refine (if_neg hh).trans ((if_pos hf).trans ?_)
  rw [hp]

/-- A commit at the cap prunes before it looks at the cap again: it fails and changes nothing,
fails behind the prune, or appends behind it. -/
theorem commitConsumed_full_cases (io : Io) (s : Store) (id : GrantId) (expiryMs nowMs : UInt64)
    (hh : ¬s.ledger.Holds (.commit id expiryMs)) (hf : s.ledger.Full (.commit id expiryMs)) :
    (∃e,s.commitConsumed io id expiryMs nowMs=(.error e,s)) ∨
    (∃e,(Call.commitConsumed id expiryMs nowMs).Rewrites s.ledger.toCaches nowMs ∧
      s.commitConsumed io id expiryMs nowMs=(.error e,(s.pruneExpired io nowMs).2)) ∨
    ((Call.commitConsumed id expiryMs nowMs).WritesAfter s.ledger.toCaches nowMs (.commit id expiryMs) ∧
      (s.pruneExpired io nowMs).1=.ok () ∧
      s.commitConsumed io id expiryMs nowMs=(s.pruneExpired io nowMs).2.logRecord io (.commit id expiryMs)) := by
  have hfail := fun e s' => commitConsumed_full_error io s s' id expiryMs nowMs e hh hf
  have hgo := fun s' => commitConsumed_full_ok io s s' id expiryMs nowMs hh hf
  obtain ⟨hp,_⟩|⟨hp,_,_⟩|⟨hp,hro,he⟩ := pruneExpired_cases io s nowMs
  · left
    exact ⟨.DiskError,hfail _ _ hp⟩
  · left
    have hf' : maxLive ≤ s.ledger.consumed.keys.length := hf
    exact ⟨.ResourceExhausted,(hgo _ hp).trans (if_pos hf')⟩
  · right
    have hrw : (Call.commitConsumed id expiryMs nowMs).Rewrites s.ledger.toCaches nowMs :=
      ⟨he,Or.inr ⟨id,expiryMs,rfl,hh,hf⟩⟩
    obtain ⟨temp,hw⟩|⟨e,hw⟩|⟨_,hw⟩ :=
      rewrite_cases io (s.dropped nowMs) ((s.ledger.dropExpired nowMs).image io)
    · left
      have hpw := hp.trans hw
      exact ⟨.DiskError,hrw,by rw [hfail _ _ hpw,hpw]⟩
    · left
      have hpw := hp.trans hw
      exact ⟨e,hrw,by rw [hfail _ _ hpw,hpw]⟩
    · have hpw := hp.trans hw
      by_cases hf' : (s.ledger.dropExpired nowMs).Full (.commit id expiryMs)
      · left
        refine ⟨.ResourceExhausted,hrw,?_⟩
        rw [hgo _ hpw,hpw]
        exact if_pos hf'
      · right
        refine ⟨⟨hrw,rfl,hf'⟩,by rw [hpw],?_⟩
        rw [hgo _ hpw,hpw]
        exact if_neg hf'

/-- Everything one call can do: nothing, a prune, an append, or a prune that makes
room and then an append. -/
theorem run_cases (io : Io) (s : Store) (call : Call) :
    (∃res,call.run io s=(res,s) ∧
      (res=.ok () → ∀r,call.record=some r → s.ledger.Holds r)) ∨
    (∃nowMs res,call.Rewrites s.ledger.toCaches nowMs ∧
      call.run io s=(res,(s.pruneExpired io nowMs).2) ∧
      (res=.ok () → call=.pruneExpired nowMs ∧ (s.pruneExpired io nowMs).1=.ok ())) ∨
    (∃r,call.Writes s.ledger.toCaches r ∧ call.run io s=s.logRecord io r) ∨
    (∃nowMs r,call.WritesAfter s.ledger.toCaches nowMs r ∧ (s.pruneExpired io nowMs).1=.ok () ∧
      call.run io s=(s.pruneExpired io nowMs).2.logRecord io r) := by
  cases call with
  | pruneExpired nowMs =>
    by_cases he : s.ledger.expired nowMs=[]
    · left
      have hp := pruneExpired_cases io s nowMs
      simp only [he,ne_eq,not_true_eq_false,and_false,or_false] at hp
      cases hp with
      | inl hp => exact ⟨_,hp.1,by simp [Call.record]⟩
      | inr hp => exact ⟨_,hp.1,by simp [Call.record]⟩
    · right
      left
      exact ⟨nowMs,(s.pruneExpired io nowMs).1,⟨he,Or.inl rfl⟩,rfl,fun h => ⟨rfl,h⟩⟩
  | markPublished id =>
    by_cases hh : s.ledger.Holds (.published id)
    · left
      exact ⟨.ok (),if_pos hh,by simp [Call.record,hh]⟩
    · right; right; left
      exact ⟨_,⟨rfl,hh,not_false⟩,if_neg hh⟩
  | recordFirstReceipt id timeMs =>
    by_cases hh : s.ledger.Holds (.firstReceipt id timeMs)
    · left
      exact ⟨.ok (),if_pos hh,by simp [Call.record,hh]⟩
    · right; right; left
      exact ⟨_,⟨rfl,hh,not_false⟩,if_neg hh⟩
  | commitRevocation pk certExpiryMs =>
    by_cases hh : s.ledger.Holds (.revoke pk certExpiryMs)
    · left
      exact ⟨.ok (),if_pos hh,by simp [Call.record,hh]⟩
    · by_cases hf : s.ledger.Full (.revoke pk certExpiryMs)
      · left
        exact ⟨.error .ResourceExhausted,(if_neg hh).trans (if_pos hf),by simp⟩
      · right; right; left
        exact ⟨_,⟨rfl,hh,hf⟩,(if_neg hh).trans (if_neg hf)⟩
  | commitConsumed id expiryMs nowMs =>
    by_cases hh : s.ledger.Holds (.commit id expiryMs)
    · left
      exact ⟨.ok (),if_pos hh,by simp [Call.record,hh]⟩
    · by_cases hf : s.ledger.Full (.commit id expiryMs)
      · obtain ⟨e,he⟩|⟨e,hrw,he⟩|⟨hw,hp,he⟩ := commitConsumed_full_cases io s id expiryMs nowMs hh hf
        · exact Or.inl ⟨.error e,he,by simp⟩
        · exact Or.inr (Or.inl ⟨nowMs,.error e,hrw,he,by simp⟩)
        · exact Or.inr (Or.inr (Or.inr ⟨nowMs,_,hw,hp,he⟩))
      · right; right; left
        exact ⟨_,⟨rfl,hh,hf⟩,(if_neg hh).trans (if_neg hf)⟩

theorem run_of_writes (io : Io) (s : Store) (call : Call) (r : Record)
    (h : call.Writes s.ledger.toCaches r) : call.run io s=s.logRecord io r := by
  obtain ⟨hr,hh,hf⟩ := h
  cases call with
  | pruneExpired nowMs => simp [Call.record] at hr
  | markPublished id =>
    cases Option.some.inj hr
    exact if_neg hh
  | recordFirstReceipt id timeMs =>
    cases Option.some.inj hr
    exact if_neg hh
  | commitRevocation pk certExpiryMs =>
    cases Option.some.inj hr
    exact (if_neg hh).trans (if_neg hf)
  | commitConsumed id expiryMs nowMs =>
    cases Option.some.inj hr
    exact (if_neg hh).trans (if_neg hf)

theorem run_of_writesAfter (io : Io) (s : Store) (call : Call) (nowMs : UInt64) (r : Record)
    (h : call.WritesAfter s.ledger.toCaches nowMs r) :
    (∃e,(s.pruneExpired io nowMs).1=.error e ∧ (call.run io s).1=.error e) ∨
    ((s.pruneExpired io nowMs).1=.ok () ∧
      call.run io s=(s.pruneExpired io nowMs).2.logRecord io r) := by
  obtain ⟨⟨he,hp|⟨id,expiryMs,rfl,hh,hf⟩⟩,hr,hroom⟩ := h
  · rw [hp] at hr
    simp [Call.record] at hr
  · cases Option.some.inj hr
    obtain ⟨hp,_⟩|⟨_,_,hn⟩|⟨hp,hro,_⟩ := pruneExpired_cases io s nowMs
    · have hrun := commitConsumed_full_error io s _ id expiryMs nowMs _ hh hf hp
      exact Or.inl ⟨.DiskError,by rw [hp],congrArg Prod.fst hrun⟩
    · exact absurd hn he
    · obtain ⟨temp,hw⟩|⟨e,hw⟩|⟨_,hw⟩ :=
        rewrite_cases io (s.dropped nowMs) ((s.ledger.dropExpired nowMs).image io)
      · have hpw := hp.trans hw
        have hrun := commitConsumed_full_error io s _ id expiryMs nowMs _ hh hf hpw
        exact Or.inl ⟨.DiskError,by rw [hpw],congrArg Prod.fst hrun⟩
      · have hpw := hp.trans hw
        have hrun := commitConsumed_full_error io s _ id expiryMs nowMs _ hh hf hpw
        exact Or.inl ⟨e,by rw [hpw],congrArg Prod.fst hrun⟩
      · have hpw := hp.trans hw
        have hrun := commitConsumed_full_ok io s _ id expiryMs nowMs hh hf hpw
        refine Or.inr ⟨by rw [hpw],?_⟩
        rw [hpw]
        exact hrun.trans (if_neg hroom)

/-- What every prune, every append and every append after a prune preserves, every
call preserves. -/
theorem run_preserves {P : Store → Prop} (io : Io) (s : Store) (call : Call) (hs : P s)
    (prune : ∀nowMs,call.Rewrites s.ledger.toCaches nowMs → P (s.pruneExpired io nowMs).2)
    (write : ∀r,call.Writes s.ledger.toCaches r → P (s.logRecord io r).2)
    (after : ∀nowMs r,call.WritesAfter s.ledger.toCaches nowMs r →
      (s.pruneExpired io nowMs).1=.ok () → P ((s.pruneExpired io nowMs).2.logRecord io r).2) :
    P (call.run io s).2 := by
  obtain ⟨res,h,_⟩|⟨nowMs,res,hr,h,_⟩|⟨r,hw,h⟩|⟨nowMs,r,hw,hp,h⟩ := run_cases io s call
  · rw [h]
    exact hs
  · rw [h]
    exact prune nowMs hr
  · rw [h]
    exact write r hw
  · rw [h]
    exact after nowMs r hw hp

/-- Closing the handle, opening the file again and recovering. -/
def reopen (io : Io) (d : Disk) : Except LedgerError (Recovery × GrantLedger) × Disk :=
  match GrantLedger.open io d with
  | (.error e,d') => (.error e,d')
  | (.ok l,d') =>
    match Store.recover io ⟨l,d'⟩ with
    | (.error e,s) => (.error e,s.disk)
    | (.ok recovery,s) => (.ok (recovery,s.ledger),s.disk)

/-- A handle that has recovered the log. -/
def Caches.recovered (c : Caches) (d : Disk) : GrantLedger :=
  { c with file := some d.log.length,readOnly := false }

/-- Opening and recovering succeed. -/
structure Io.Opens (io : Io) : Prop where
  openFile : io.openFile=true
  lock : io.lock=true
  removeTemp : io.removeTemp=true
  seek : io.seek=true
  read : io.read=none

theorem recover_of_replay (io : Io) (l : GrantLedger) (d : Disk) (c : Caches) (hl : l.file.isSome)
    (hd : Caches.replayLoop d.log.length d.log Caches.empty=(.ok (),c)) (hs : io.seek=true) (hr : io.read=none) :
    Store.recover io ⟨l,d⟩=(.ok c.recovery,⟨{ l with toCaches := c,file := some d.log.length },d⟩) := by
  obtain ⟨pos,hf⟩ := Option.isSome_iff_exists.mp hl
  simp [Store.recover,hf,hs,hr,hd]

/-- A log that replays opens again as what it replays to. -/
theorem reopen_of_replay (io : Io) (hio : io.Opens) (d : Disk) (c : Caches)
    (hd : Caches.replayLoop d.log.length d.log Caches.empty=(.ok (),c)) :
    reopen io d=(.ok (c.recovery,c.recovered d),{ d with temp := none }) := by
  have hopen : GrantLedger.open io d=
      (.ok { Caches.empty with file := some 0,readOnly := false },{ d with temp := none }) := by
    simp [GrantLedger.open,hio.openFile,hio.lock,hio.removeTemp]
  rw [reopen,hopen]
  simp only
  rw [recover_of_replay io _ { d with temp := none } c rfl hd hio.seek hio.read]
  rfl

theorem replayLoop_records (log : Bytes) (rs : List Record) (p : Bytes) (hd : log=ledgerFormat.encode rs++p)
    (hp : ledgerFormat.Torn p) :
    Caches.replayLoop log.length log Caches.empty=(.ok (),Caches.replayAll rs) := by
  rw [replayLoop_eq,hd,ledgerFormat.scan_encode _ rs p hp (Nat.le_refl _)]
  rfl

theorem recover_of_records (io : Io) (l : GrantLedger) (d : Disk) (rs : List Record) (p : Bytes)
    (hl : l.file.isSome) (hd : d.log=ledgerFormat.encode rs++p) (hp : ledgerFormat.Torn p)
    (hs : io.seek=true) (hr : io.read=none) :
    Store.recover io ⟨l,d⟩=(.ok (Caches.replayAll rs).recovery,
      ⟨{ l with toCaches := Caches.replayAll rs,file := some d.log.length },d⟩) :=
  recover_of_replay io l d _ hl (replayLoop_records d.log rs p hd hp) hs hr

theorem reopen_of_records (io : Io) (hio : io.Opens) (d : Disk) (rs : List Record) (p : Bytes)
    (hd : d.log=ledgerFormat.encode rs++p) (hp : ledgerFormat.Torn p) :
    reopen io d=(.ok ((Caches.replayAll rs).recovery,(Caches.replayAll rs).recovered d),
      { d with temp := none }) :=
  reopen_of_replay io hio d _ (replayLoop_records d.log rs p hd hp)

/-- A reopen of a log without junk either fails and leaves the log alone or comes
back with the state of its records. -/
theorem reopen_cases (io : Io) (d : Disk) (rs : List Record) (p : Bytes)
    (hd : d.log=ledgerFormat.encode rs++p) (hp : ledgerFormat.Torn p) :
    (∃e d',reopen io d=(.error e,d') ∧ d'.log=d.log) ∨
    reopen io d=(.ok ((Caches.replayAll rs).recovery,(Caches.replayAll rs).recovered d),
      { d with temp := none }) := by
  cases ho : GrantLedger.open io d with
  | mk opened d' =>
    have hdisk : d'.log=d.log ∧ (∀l,opened=.ok l → d'={ d with temp := none } ∧
        l={ Caches.empty with file := some 0,readOnly := false }) := by
      rw [GrantLedger.open] at ho
      split_ifs at ho <;> obtain ⟨rfl,rfl⟩ := Prod.mk.inj ho <;> simp
    cases opened with
    | error e => exact Or.inl ⟨e,d',by rw [reopen,ho],hdisk.1⟩
    | ok l =>
      obtain ⟨rfl,rfl⟩ := hdisk.2 l rfl
      cases hs : io.seek with
      | false => exact Or.inl ⟨.DiskError,{ d with temp := none },by simp [reopen,ho,Store.recover,hs],rfl⟩
      | true =>
        cases hr : io.read with
        | some k => exact Or.inl ⟨.DiskError,{ d with temp := none },by simp [reopen,ho,Store.recover,hs,hr],rfl⟩
        | none =>
          right
          rw [reopen,ho]
          simp only
          rw [recover_of_records io _ { d with temp := none } rs p rfl hd hp hs hr]
          rfl

/-- A process that holds the ledger or has failed to get it. -/
structure Node where
  ledger : Option GrantLedger
  disk : Disk
  deriving DecidableEq

inductive Op where
  | call (c : Call)
  | restart
  deriving DecidableEq

def Node.reopened (io : Io) (d : Disk) : Node :=
  match reopen io d with
  | (.error _,d') => ⟨none,d'⟩
  | (.ok (_,l),d') => ⟨some l,d'⟩

def Store.node (s : Store) : Node := ⟨some s.ledger,s.disk⟩

def Node.step (n : Node) : Io × Op → Node
  | (io,.call c) =>
    match n.ledger with
    | none => n
    | some l => (c.run io ⟨l,n.disk⟩).2.node
  | (io,.restart) => Node.reopened io n.disk

end Bolina.State
