import Bolina.Framework.GuardedRun
import Bolina.State.LedgerRun

namespace Bolina.State

open RecordLog GuardedRun

def callStep (s : Store) (x : Io × Call) : Store := (x.2.run x.1 s).2

/-- A call that returns `Ok` after an append leaves the bytes the file held just
before the append, followed by the record. -/
def AppendsOnly (s : Store) (x : Io × Call) : Prop :=
  (x.2.run x.1 s).1=.ok () →
    (∀r,x.2.Writes s.ledger.toCaches r → (callStep s x).disk.log=s.disk.log++r.bytes) ∧
    ∀nowMs r,x.2.WritesAfter s.ledger.toCaches nowMs r →
      (callStep s x).disk.log=(s.pruneExpired x.1 nowMs).2.disk.log++r.bytes

/-- An append that goes through starts at the end of the file: the cursor stands
there, or the rewrite before it has kept nothing. -/
def StartsAtEnd (s : Store) (x : Io × Call) : Prop :=
  s.ledger.readOnly=false → x.1.Appends →
    (∀r pos,x.2.Writes s.ledger.toCaches r → s.ledger.file=some pos → pos=s.disk.log.length) ∧
    ∀nowMs r,x.2.WritesAfter s.ledger.toCaches nowMs r → x.1.Replaces →
      (s.ledger.dropExpired nowMs).image x.1=[]

theorem logRecord_of_appends (io : Io) (s : Store) (r : Record) (pos : Nat) (hio : io.Appends)
    (hro : s.ledger.readOnly=false) (hf : s.ledger.file=some pos) :
    s.logRecord io r=(.ok (),s.logged pos r) := by
  obtain ⟨_,h|h⟩|⟨p,put,_,_,_,⟨_,_,h⟩|⟨_,_,h⟩⟩|⟨p,_,hp,_,h⟩ := logRecord_cases io s r
  · rw [hro] at h
    cases h
  · rw [hf] at h
    cases h
  · rw [hio.sync] at h
    cases h
  · exact absurd hio.write h
  · rw [hf] at hp
    cases hp
    exact h

theorem logRecord_ok (io : Io) (s : Store) (r : Record) (h : (s.logRecord io r).1=.ok ()) :
    ∃pos,s.ledger.readOnly=false ∧ s.ledger.file=some pos ∧ io.Appends ∧
      s.logRecord io r=(.ok (),s.logged pos r) := by
  obtain ⟨he,_⟩|⟨p,put,_,_,he,_⟩|hok := logRecord_cases io s r
  · rw [he] at h
    cases h
  · rw [he] at h
    cases h
  · exact hok

theorem pruneExpired_of_replaces (io : Io) (s : Store) (nowMs : UInt64) (hio : io.Replaces)
    (hro : s.ledger.readOnly=false) (he : s.ledger.expired nowMs≠[]) :
    s.pruneExpired io nowMs=
      (.ok (),(s.dropped nowMs).replaced ((s.ledger.dropExpired nowMs).image io) (some 0)) := by
  obtain ⟨_,h⟩|⟨_,_,h⟩|⟨hp,_,_⟩ := pruneExpired_cases io s nowMs
  · rw [hro] at h
    cases h
  · exact absurd h he
  · simp [hp,Store.rewrite,Store.replaced,hio.createTemp,hio.writeTemp,hio.syncTemp,hio.rename,
      hio.reopen,hio.relock]

theorem pruneExpired_ok (io : Io) (s : Store) (nowMs : UInt64) (he : s.ledger.expired nowMs≠[])
    (h : (s.pruneExpired io nowMs).1=.ok ()) :
    s.ledger.readOnly=false ∧ io.Replaces ∧ s.pruneExpired io nowMs=
      (.ok (),(s.dropped nowMs).replaced ((s.ledger.dropExpired nowMs).image io) (some 0)) := by
  obtain ⟨hp,_⟩|⟨_,_,hn⟩|⟨hp,hro,_⟩ := pruneExpired_cases io s nowMs
  · rw [hp] at h
    cases h
  · exact absurd hn he
  · obtain ⟨temp,hw⟩|⟨e,hw⟩|⟨hio,hw⟩ :=
      rewrite_cases io (s.dropped nowMs) ((s.ledger.dropExpired nowMs).image io)
    · rw [hp,hw] at h
      cases h
    · rw [hp,hw] at h
      cases h
    · exact ⟨hro,hio,hp.trans hw⟩

/-- One call: it appends exactly when its append starts at the end. -/
theorem appendsOnly_iff (s : Store) (x : Io × Call) : AppendsOnly s x ↔ StartsAtEnd s x := by
  obtain ⟨io,call⟩ := x
  constructor
  · intro h hro hio
    constructor
    · intro r pos hw hf
      have hrun : call.run io s=(.ok (),s.logged pos r) :=
        (run_of_writes io s call r hw).trans (logRecord_of_appends io s r pos hio hro hf)
      have hlog := (h (by rw [hrun])).1 r hw
      rw [callStep,hrun] at hlog
      exact (writeAt_eq_append_iff 0 _ _ _ (ledgerFormat.bytes_ne_nil r)).mp hlog
    · intro nowMs r hw hrep
      have hp := pruneExpired_of_replaces io s nowMs hrep hro hw.1.1
      obtain ⟨e,he,_⟩|⟨_,hrun⟩ := run_of_writesAfter io s call nowMs r hw
      · rw [hp] at he
        cases he
      · rw [hp] at hrun
        have hl := logRecord_of_appends io ((s.dropped nowMs).replaced
          ((s.ledger.dropExpired nowMs).image io) (some 0)) r 0 hio hro rfl
        have hlog := (h (by rw [hrun,hl])).2 nowMs r hw
        rw [callStep,hrun,hl,hp] at hlog
        have hz := (writeAt_eq_append_iff 0 _ _ _ (ledgerFormat.bytes_ne_nil r)).mp hlog
        exact List.eq_nil_of_length_eq_zero hz.symm
  · intro h hok
    constructor
    · intro r hw
      have hrun := run_of_writes io s call r hw
      have hok' : (call.run io s).1=.ok () := hok
      rw [hrun] at hok'
      obtain ⟨pos,hro,hf,hio,hl⟩ := logRecord_ok io s r hok'
      have hend := (h hro hio).1 r pos hw hf
      rw [callStep,hrun,hl,Store.logged,hend,writeAt_end]
    · intro nowMs r hw
      have hok' : (call.run io s).1=.ok () := hok
      obtain ⟨e,_,he⟩|⟨hpok,hrun⟩ := run_of_writesAfter io s call nowMs r hw
      · rw [he] at hok'
        cases hok'
      · obtain ⟨hro,hrep,hp⟩ := pruneExpired_ok io s nowMs hw.1.1 hpok
        rw [hrun] at hok'
        obtain ⟨pos,_,hf,hio,hl⟩ := logRecord_ok io _ r hok'
        have himg := (h hro hio).2 nowMs r hw hrep
        rw [callStep,hrun,hl,hp] at *
        cases hf
        simp [Store.logged,Store.replaced,himg,writeAt]

/-- The ledger is append-only along a run exactly when every append of the run that
goes through starts at the end of the file. -/
theorem append_only_iff (s : Store) (calls : List (Io × Call)) :
    Meets callStep AppendsOnly s calls ↔ Meets callStep StartsAtEnd s calls :=
  ⟨meets_mono (fun s x h => (appendsOnly_iff s x).mp h) s calls,
    meets_mono (fun s x h => (appendsOnly_iff s x).mpr h) s calls⟩

/-- The cursor of the handle stands at the end of the file. -/
def Store.AtEnd (s : Store) : Prop := ∀pos,s.ledger.file=some pos → pos=s.disk.log.length

theorem atEnd_logRecord (io : Io) (s : Store) (r : Record) (hs : s.AtEnd) :
    (s.logRecord io r).2.AtEnd := by
  obtain ⟨h,_⟩|⟨pos,put,_,hf,h,_⟩|⟨pos,_,hf,_,h⟩ := logRecord_cases io s r
  · rw [h]
    exact hs
  · intro p hp
    have hend := hs pos hf
    rw [h] at hp ⊢
    cases hp
    simp [Store.put,hend]
  · intro p hp
    have hend := hs pos hf
    rw [h] at hp ⊢
    cases hp
    simp [Store.logged,hend]

theorem atEnd_recover (io : Io) (s : Store) (recovery : Recovery)
    (h : (s.recover io).1=.ok recovery) : (s.recover io).2.AtEnd := by
  intro pos hpos
  rw [Store.recover] at h hpos ⊢
  cases hf : s.ledger.file with
  | none =>
    rw [hf] at h
    cases h
  | some p =>
    cases hs : io.seek with
    | false => simp [hf,hs] at h
    | true =>
      cases hr : io.read with
      | some k => simp [hf,hs,hr] at h
      | none =>
        cases hl : Caches.replayLoop s.disk.log.length s.disk.log Caches.empty with
        | mk res c =>
          cases res with
          | error e => simp [hf,hs,hr,hl] at h
          | ok _ =>
            simp only [hf,hs,hr,hl] at hpos ⊢
            exact (Option.some.inj hpos).symm

/-- A handle that has recovered appends as long as no call rewrites the file. -/
theorem append_only_of_recovered (s : Store) (calls : List (Io × Call)) (hs : s.AtEnd)
    (h : Meets callStep (fun s x => ∀nowMs,¬x.2.Rewrites s.ledger.toCaches nowMs) s calls) :
    Meets callStep AppendsOnly s calls := by
  induction calls generalizing s with
  | nil => trivial
  | cons x calls ih =>
    have hstep : (callStep s x).AtEnd := by
      apply run_preserves x.1 s x.2 hs
      · intro nowMs hr
        exact absurd hr (h.1 nowMs)
      · intro r _
        exact atEnd_logRecord x.1 s r hs
      · intro nowMs r hw _
        exact absurd hw.1 (h.1 nowMs)
    refine ⟨(appendsOnly_iff s x).mpr ?_,ih _ hstep h.2⟩
    intro _ _
    constructor
    · intro r pos _ hf
      exact hs pos hf
    · intro nowMs r hw _
      exact absurd hw.1 (h.1 nowMs)

def sampleId (b : UInt8) : GrantId := List.Vector.replicate 16 b

def samplePk (b : UInt8) : SigPubkey := List.Vector.replicate 32 b

/-- A file of one revocation, opened and not recovered: the next append goes over it. -/
theorem append_overwrites_unrecovered :
    let d : Disk := ⟨ledgerFormat.encode [.revoke (samplePk 7) 5],none,[]⟩
    ∃l,GrantLedger.open Io.good d=(.ok l,d) ∧
      ((Store.mk l d).markPublished Io.good (sampleId 9)).1=.ok () ∧
      ((Store.mk l d).markPublished Io.good (sampleId 9)).2.disk.log≠
        d.log++(Record.published (sampleId 9)).bytes ∧
      ¬Meets callStep AppendsOnly ⟨l,d⟩ [(Io.good,.markPublished (sampleId 9))] := by
  intro d
  refine ⟨{ Caches.empty with file := some 0,readOnly := false },rfl,by decide,by decide,?_⟩
  intro h
  have hw : (Call.markPublished (sampleId 9)).Writes Caches.empty (.published (sampleId 9)) :=
    ⟨rfl,by decide,not_false⟩
  exact absurd ((h.1 (by decide)).1 _ hw) (by decide)

end Bolina.State
