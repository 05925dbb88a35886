import Bolina.Daemon.Daemon
import Bolina.State.LedgerAppend

namespace Bolina

open Codec Intent State Transport Control RecordLog

/-- A reader of the synced file finds a commit of this id. -/
def Durable (synced : Bytes) (id : GrantId) : Prop :=
  ∃expiry,Record.commit id expiry∈ledgerFormat.records synced

def commitCall (now : UInt64) (g : Grant) : Call := .commitConsumed (grantKey g.grantId) g.notAfter now

def commitRecord (g : Grant) : Record := .commit (grantKey g.grantId) g.notAfter

section Ledgered

variable (K : Crypto) (io : Io) (now : UInt64) (plain : Bytes) (d : Daemon) (disk : Disk)

def CommitFails (g : Grant) : Prop :=
  ∃l e,d.ledger=some l ∧ ((commitCall now g).run io ⟨l,disk⟩).1=.error e

/-- No effect without its record: a grant that is executed and reported is in the
file, and without a commit there is no event. -/
def Ledgered : Prop :=
  ∀g∈d.executed K io now plain disk,∀d' disk',d.dispatchEnvelope K io now plain disk=some (d',disk') →
    (d'.ring=d.ring.publish .EffectRefused ∨ d'.ring=d.ring.publish .GrantExecuted →
      Durable disk'.synced (grantKey g.grantId)) ∧
    (d.ledger=none ∨ CommitFails io now d disk g → d'.ring=d.ring)

/-- The envelope carries this grant, and the grant passes every check. -/
def Carries (g : Grant) : Prop :=
  Executes K d.dispatcher plain (ledgerHooks io now d.certForSender) now ⟨d.ledger,disk⟩ g

/-- The commit of the grant goes through and reads back: it is published already and
in the file, or it is written where a reader finds it, at the cursor or behind a
rewrite at the cap. -/
def Taken (l : GrantLedger) (g : Grant) : Prop :=
  (grantKey g.grantId∈l.published ∧ Durable disk.synced (grantKey g.grantId)) ∨
  (∃pos,(commitCall now g).Writes l.toCaches (commitRecord g) ∧ l.readOnly=false ∧ l.file=some pos ∧
    io.Appends ∧ Durable (writeAt 0 disk.log pos (commitRecord g).bytes) (grantKey g.grantId)) ∨
  ((commitCall now g).WritesAfter l.toCaches now (commitRecord g) ∧ l.readOnly=false ∧ io.Replaces ∧
    io.Appends)

variable {K io now plain d disk} {l : GrantLedger} {g : Grant}

theorem durable_of_boundary (log : Bytes) (pos : Nat) (rs : List Record) (g : Grant)
    (hp : pos ≤ log.length) (h : log.take pos=ledgerFormat.encode rs) :
    Durable (writeAt 0 log pos (commitRecord g).bytes) (grantKey g.grantId) :=
  ⟨g.notAfter,ledgerFormat.mem_records_writeAt 0 log pos rs (commitRecord g) hp h⟩

/-- The usual case: a fresh id, room, and the cursor behind whole records. -/
theorem taken_of_boundary (pos : Nat) (rs : List Record)
    (hw : (commitCall now g).Writes l.toCaches (commitRecord g)) (hro : l.readOnly=false)
    (hf : l.file=some pos) (hio : io.Appends) (hp : pos ≤ disk.log.length)
    (h : disk.log.take pos=ledgerFormat.encode rs) : Taken io now disk l g :=
  Or.inr (Or.inl ⟨pos,hw,hro,hf,hio,durable_of_boundary disk.log pos rs g hp h⟩)

theorem taken_of_commit (hfresh : grantKey g.grantId∉l.consumed)
    (hok : ((commitCall now g).run io ⟨l,disk⟩).1=.ok ())
    (hd : Durable ((commitCall now g).run io ⟨l,disk⟩).2.disk.synced (grantKey g.grantId)) :
    Taken io now disk l g := by
  have hrec : (commitCall now g).record=some (commitRecord g) := rfl
  obtain ⟨res,h,hh⟩|⟨nowMs,res,_,h,hh⟩|⟨r,hw,h⟩|⟨nowMs,r,hw,hp,h⟩ :=
    run_cases io ⟨l,disk⟩ (commitCall now g)
  · rw [h] at hok hd
    obtain hc|hp := hh hok _ hrec
    · exact absurd hc hfresh
    · exact Or.inl ⟨hp,hd⟩
  · rw [h] at hok
    cases (hh hok).1
  · have hr : r=commitRecord g := Option.some.inj (hw.1.symm.trans hrec)
    subst hr
    rw [h] at hok hd
    obtain ⟨pos,hro,hf,hio,hl⟩ := logRecord_ok io _ _ hok
    rw [hl] at hd
    exact Or.inr (Or.inl ⟨pos,hw,hro,hf,hio,hd⟩)
  · have hr : r=commitRecord g := Option.some.inj (hw.2.1.symm.trans hrec)
    have hn : nowMs=now := by
      obtain hc|⟨_,_,hc,_⟩ := hw.1.2
      · cases hc
      · cases hc
        rfl
    subst hr hn
    rw [h] at hok
    obtain ⟨hro,hrep,_⟩ := pruneExpired_ok io ⟨l,disk⟩ nowMs hw.1.1 hp
    obtain ⟨_,_,_,hio,_⟩ := logRecord_ok io _ _ hok
    exact Or.inr (Or.inr ⟨hw,hro,hrep,hio⟩)

theorem commit_of_taken (h : Taken io now disk l g) :
    ((commitCall now g).run io ⟨l,disk⟩).1=.ok () ∧
      Durable ((commitCall now g).run io ⟨l,disk⟩).2.disk.synced (grantKey g.grantId) := by
  obtain ⟨hp,hd⟩|⟨pos,hw,hro,hf,hio,hd⟩|⟨hw,hro,hrep,hio⟩ := h
  · have hrun : (commitCall now g).run io ⟨l,disk⟩=(.ok (),⟨l,disk⟩) := if_pos (Or.inr hp)
    rw [hrun]
    exact ⟨rfl,hd⟩
  · rw [run_of_writes io ⟨l,disk⟩ _ _ hw,logRecord_of_appends io ⟨l,disk⟩ _ pos hio hro hf]
    exact ⟨rfl,hd⟩
  · have hprune := pruneExpired_of_replaces io ⟨l,disk⟩ now hrep hro hw.1.1
    obtain ⟨e,he,_⟩|⟨_,hrun⟩ := run_of_writesAfter io ⟨l,disk⟩ _ now _ hw
    · rw [hprune] at he
      cases he
    · rw [hrun,hprune,logRecord_of_appends io _ _ 0 hio hro rfl]
      -- the cursor stands at the start of the rewritten file, so the record comes first
      exact ⟨rfl,durable_of_boundary _ 0 [] g (Nat.zero_le _) rfl⟩

theorem fresh_of_carries (h : Carries K io now plain d disk g) (hl : d.ledger=some l) :
    grantKey g.grantId∉l.consumed := by
  obtain ⟨env,cert,_,_,_,_,ha,_⟩ := h.passes
  have hf : alreadyConsumed ⟨d.ledger,disk⟩ g.grantId g.notAfter now=false := ha.fresh
  rw [hl] at hf
  exact of_decide_eq_false hf

theorem executeEffect_of_ledger (hl : d.ledger=some l) :
    (executeEffect io now g ⟨d.ledger,disk⟩).2.disk=((commitCall now g).run io ⟨l,disk⟩).2.disk := by
  rw [hl]
  rfl

theorem not_ledgered_of_absent (hl : d.ledger=none) (hm : g∈d.executed K io now plain disk) :
    ¬Ledgered K io now plain d disk := by
  intro h
  have hring := (h g hm _ _ (dispatchEnvelope_of_executed hm)).2 (Or.inl hl)
  exact publish_ne d.ring .EffectRefused hring

/-- Every effect is ledgered exactly when the commit of an authorised grant is taken. -/
theorem ledgered_iff (K : Crypto) (io : Io) (now : UInt64) (plain : Bytes) (d : Daemon) (disk : Disk) :
    Ledgered K io now plain d disk ↔
      ∀g,Carries K io now plain d disk g → ∃l,d.ledger=some l ∧ Taken io now disk l g := by
  constructor
  · intro h g hg
    have hm : g∈d.executed K io now plain disk := mem_executed.mpr hg
    obtain ⟨hdur,hring⟩ := h g hm _ _ (dispatchEnvelope_of_executed hm)
    have hne : ¬(d.ledger=none ∨ CommitFails io now d disk g) :=
      fun hf => publish_ne d.ring .EffectRefused (hring hf)
    cases hl : d.ledger with
    | none => exact absurd (Or.inl hl) hne
    | some l =>
      have hd := hdur (Or.inl rfl)
      rw [executeEffect_of_ledger hl] at hd
      refine ⟨l,rfl,taken_of_commit (fresh_of_carries hg hl) ?_ hd⟩
      cases hr : ((commitCall now g).run io ⟨l,disk⟩).1 with
      | ok _ => rfl
      | error e => exact absurd (Or.inr ⟨l,e,hl,hr⟩) hne
  · intro h g hm d' disk' hd
    obtain ⟨l,hl,ht⟩ := h g (mem_executed.mp hm)
    obtain ⟨hok,hdur⟩ := commit_of_taken ht
    rw [dispatchEnvelope_of_executed hm] at hd
    cases hd
    constructor
    · intro _
      rw [executeEffect_of_ledger hl]
      exact hdur
    · intro hf
      obtain hn|⟨l',e,hl',he⟩ := hf
      · rw [hl] at hn
        cases hn
      · rw [hl] at hl'
        cases hl'
        rw [hok] at he
        cases he

end Ledgered

/-- A node with one resource and the certificate of the peer, and no ledger. -/
def bootedDaemon : Daemon :=
  { Daemon.new sampleCrypto nodeKey with
    resolver := { Resolver.new sampleCrypto nodeKey with entries := [sampleResource] }
    certs := [(peerKey,encodeCert sampleCert)] }

def emptyDisk : Disk := ⟨[],none,[]⟩

def readyRun : Option (Daemon × Disk) :=
  bootedDaemon.dispatchEnvelope sampleCrypto Io.good 1000000 (encodeEnvelope intentEnvelope) emptyDisk

/-- The node after the intent of the peer. -/
def readyNode : Daemon × Disk := readyRun.getD (bootedDaemon,emptyDisk)

/-- Without a ledger the grant is executed and the event goes out. -/
theorem unledgered_effect_reported :
    readyRun.isSome=true ∧ readyNode.1.ledger=none ∧
      ¬Ledgered sampleCrypto Io.good 1000000 (encodeEnvelope grantEnvelope) readyNode.1 readyNode.2 := by
  have hl : readyNode.1.ledger.isNone=true := by decide +kernel
  have hm : sampleGrant∈readyNode.1.executed sampleCrypto Io.good 1000000
      (encodeEnvelope grantEnvelope) readyNode.2 := by decide +kernel
  have hnone : readyNode.1.ledger=none := Option.isNone_iff_eq_none.mp hl
  exact ⟨by decide +kernel,hnone,not_ledgered_of_absent hnone hm⟩

end Bolina
