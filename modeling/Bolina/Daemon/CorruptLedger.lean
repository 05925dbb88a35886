import Bolina.Daemon.Ledgered
import Bolina.Daemon.RenewedCert
import Bolina.State.LedgerReplay

namespace Bolina

open Codec Intent State Transport Control Noise GuardedRun RecordLog

/-- A handle that reads the whole log finds that it cannot be replayed. -/
def Corrupt (disk : Disk) : Prop := (disk.opened.recover .good).1=.error .BadLog

/-- The file opens, the lock is free, and a temporary file next to it can be removed. -/
def OpensOver (io : Io) (disk : Disk) : Bool := io.openFile && io.lock && !(disk.temp.isSome && !io.removeTemp)

section Recover

variable {disk : Disk} {s : Store} {io : Io}

theorem corrupt_iff : Corrupt disk ↔ (Caches.replayLoop disk.log.length disk.log Caches.empty).1=.error .BadLog := by
  rw [Corrupt,Store.recover,Disk.opened]
  simp only [Io.good,Bool.not_true,Bool.false_eq_true,if_false]
  generalize Caches.replayLoop disk.log.length disk.log Caches.empty=r
  obtain ⟨res,c⟩ := r
  cases res <;> simp

/-- Every handle that reads the log gives the answer for its bytes, whatever it held before. -/
theorem recover_badLog_iff (hf : s.ledger.file.isSome) (hseek : io.seek=true) (hread : io.read=none) :
    (s.recover io).1=.error .BadLog ↔ Corrupt s.disk := by
  obtain ⟨pos,hpos⟩ := Option.isSome_iff_exists.mp hf
  rw [corrupt_iff,Store.recover,hpos,hread]
  simp only [hseek,Bool.not_true,Bool.false_eq_true,if_false]
  generalize Caches.replayLoop s.disk.log.length s.disk.log Caches.empty=r
  obtain ⟨res,c⟩ := r
  cases res <;> simp

end Recover

section Attach

variable {io : Io} {d d' : Daemon} {disk disk' : Disk}

/-- The handle of a ledger that was opened and has read nothing. -/
def freshHandle : GrantLedger := { Caches.empty with file := some 0,readOnly := false }

theorem open_over (io : Io) (disk : Disk) :
    (OpensOver io disk=true ∧ GrantLedger.open io disk=(.ok freshHandle,{ disk with temp := none })) ∨
      (OpensOver io disk=false ∧ ∃e,GrantLedger.open io disk=(.error e,disk)) := by
  rw [OpensOver,GrantLedger.open]
  cases io.openFile with
  | false => exact .inr ⟨rfl,_,rfl⟩
  | true =>
    cases io.lock with
    | false => exact .inr ⟨rfl,_,rfl⟩
    | true =>
      cases disk.temp.isSome && !io.removeTemp with
      | true => exact .inr ⟨rfl,_,rfl⟩
      | false => exact .inl ⟨rfl,rfl⟩

/-- The attach is refused and leaves the bytes. -/
def AttachRefused (io : Io) (d : Daemon) (disk : Disk) : Prop :=
  (∃e,(d.attachLedger io disk).1=.error e) ∧ (d.attachLedger io disk).2.log=disk.log

theorem attachRefused_iff (io : Io) (d : Daemon) (disk : Disk) : AttachRefused io d disk ↔ OpensOver io disk=false := by
  rw [AttachRefused,Daemon.attachLedger]
  rcases open_over io disk with hopen | hshut
  · obtain ⟨ho,he⟩ := hopen
    rw [he,ho]
    simp
  · obtain ⟨ho,e,he⟩ := hshut
    rw [he,ho]
    simp

/-- The first commit that is written goes over the front of the log, whatever stands there. -/
theorem attached_write {io' : Io} {now : UInt64} {g : Grant} (ha : d.attachLedger io disk=(.ok d',disk'))
    (hio : io'.Appends) : (executeEffect io' now g ⟨d'.ledger,disk'⟩).2.disk.log=
      (commitRecord g).bytes++disk.log.drop (commitRecord g).bytes.length := by
  rw [Daemon.attachLedger] at ha
  rcases open_over io disk with hopen | hshut
  · obtain ⟨_,he⟩ := hopen
    rw [he] at ha
    cases ha
    rw [executeEffect_of_ledger rfl]
    have hw : (commitCall now g).Writes freshHandle.toCaches (commitRecord g) := by
      refine ⟨rfl,?_,?_⟩
      · change ¬(_∈(∅ : TimeMap 16) ∨ _∈(∅ : Finset GrantId))
        simp
      · change ¬maxLive ≤ 0
        decide
    have hfront := writeAt_take 0 disk.log 0 (commitRecord g).bytes (Nat.zero_le _)
    rw [List.take_zero,List.nil_append,Nat.zero_add] at hfront
    rw [run_of_writes io' ⟨freshHandle,{ disk with temp := none }⟩ _ _ hw,
      logRecord_of_appends io' _ _ 0 hio rfl rfl]
    exact hfront
  · obtain ⟨_,e,he⟩ := hshut
    rw [he] at ha
    cases ha

end Attach

section Kept

variable {S : Suite} {A : Aead} {keys : Keys} {e e' : Endpoint}

theorem dispatchEnvelope_unledgered {K : Crypto} {io : Io} {now : UInt64} {plain : Bytes} {d d' : Daemon}
    {disk disk' : Disk} (hn : d.ledger=none) (h : d.dispatchEnvelope K io now plain disk=some (d',disk')) :
    d'.ledger=none ∧ disk'=disk := by
  by_cases hx : d.executed K io now plain disk=[]
  · obtain ⟨hl,hd⟩ := dispatchEnvelope_frame hx d' disk' h
    rw [hl,hn]
    exact ⟨rfl,hd⟩
  · obtain ⟨g,hg⟩ := List.exists_mem_of_ne_nil _ hx
    rw [dispatchEnvelope_of_executed hg,executeEffect,hn] at h
    cases h
    exact ⟨rfl,rfl⟩

theorem gate_unledgered (S : Suite) (e : Endpoint) (plain : Bytes) :
    (e.gate S plain).2.daemon.ledger=e.daemon.ledger ∧ (e.gate S plain).2.disk=e.disk := by
  have hg := gated S e plain
  generalize e.gate S plain=r at hg ⊢
  cases hg <;> exact ⟨rfl,rfl⟩

theorem handleEnvelope_unledgered {io : Io} {now : UInt64} {plain : Bytes} (hn : e.daemon.ledger=none)
    (h : e.handleEnvelope S io now plain=some e') : e'.daemon.ledger=none ∧ e'.disk=e.disk := by
  obtain ⟨hl,hd⟩ := gate_unledgered S e plain
  rw [Endpoint.handleEnvelope] at h
  generalize e.gate S plain=r at h hl hd
  obtain ⟨through,e₁⟩ := r
  cases through with
  | false =>
    cases h
    exact ⟨hl.trans hn,hd⟩
  | true =>
    obtain ⟨⟨d,disk⟩,hdispatch,heq⟩ := Option.map_eq_some_iff.mp h
    cases heq
    obtain ⟨hnone,hsame⟩ := dispatchEnvelope_unledgered (hl.trans hn) hdispatch
    exact ⟨hnone,hsame.trans hd⟩

theorem bindingEnds_unledgered {now : UInt64} {plain : Bytes} {hash : Key} {slot idx : UInt32} {acts : List Act}
    (h : BindingEnds S keys now plain hash slot idx e e' acts) :
    e'.daemon.ledger=e.daemon.ledger ∧ e'.disk=e.disk := by
  have hbound : (e.setBound idx).disk=e.disk := by
    rw [Endpoint.setBound]
    cases e.sessions.lookup idx <;> rfl
  cases h with
  | refused => exact ⟨rfl,rfl⟩
  | silent => exact ⟨rfl,rfl⟩
  | binds =>
    refine ⟨?_,hbound⟩
    change (e.setBound idx).daemon.ledger=e.daemon.ledger
    rw [setBound_daemon]

theorem handleTransport_unledgered {out : Outside} {pkt : Bytes} {acts : List Act} (hn : e.daemon.ledger=none)
    (h : e.handleTransport S A keys out pkt=some (e',acts)) : e'.daemon.ledger=none ∧ e'.disk=e.disk := by
  cases handleTransport_ends h with
  | ignored => exact ⟨hn,rfl⟩
  | closed => exact ⟨hn,rfl⟩
  | envelope s recv plain _ opens found key bound handled =>
    have hkept := handleEnvelope_unledgered (by exact hn) handled
    exact hkept
  | binding s recv plain _ _ opens found key unbound ends =>
    have hkept := bindingEnds_unledgered ends
    exact ⟨hkept.1.trans hn,hkept.2⟩

theorem handleHandshake_disk {out : Outside} {pkt : Bytes} {acts : List Act}
    (h : e.handleHandshake S keys out pkt=some (e',acts)) : e'.disk=e.disk := by
  rw [Endpoint.handleHandshake] at h
  obtain ⟨res,hs,sent,hp,-⟩ := Handshake.processed S e.hs pkt keys.secretStatic keys.sigPub out.ephSecret out.send
    out.now
  rw [hp] at h
  cases res with
  | error err =>
    cases err <;>
      · cases h
        rfl
  | ok slot =>
    dsimp only at h
    cases hslot : hs.slots slot with
    | none =>
      rw [hslot] at h
      cases h
      rfl
    | some s =>
      rw [hslot] at h
      dsimp only at h
      generalize e.sessions.admit (UInt32.ofNat slot) 0 s.sendKey s.recvKey s.handshakeHash out.later=r at h
      obtain ⟨res,sessions⟩ := r
      cases res <;>
        · cases h
          rfl

theorem releaseStale_disk (now : UInt64) (e : Endpoint) : (e.releaseStaleSlots now).2.disk=e.disk := by
  have hfold : ∀(freed : List Handshake.Slot) (e : Endpoint),(freed.foldl Endpoint.releaseHsSlot e).disk=e.disk := by
    intro freed
    induction freed with
    | nil => exact fun _ => rfl
    | cons i freed ih => exact fun e => ih _
  exact hfold _ { e with hs := (e.hs.releaseStale now Handshake.tHsIdleMs).2 }

/-- Without a ledger no input of the network opens one or touches its file. -/
theorem step_unledgered {x : Input} {acts : List Act} (hn : e.daemon.ledger=none)
    (h : e.step S A keys x=some (e',acts)) : e'.daemon.ledger=none ∧ e'.disk=e.disk := by
  cases x with
  | sweep now =>
    cases h
    exact ⟨(congrArg Daemon.ledger (releaseStale_daemon now e)).trans hn,releaseStale_disk now e⟩
  | datagram pkt out =>
    cases pkt with
    | nil =>
      cases h
      exact ⟨hn,rfl⟩
    | cons b rest =>
      rw [Endpoint.step,Endpoint.handleDatagram.eq_def] at h
      dsimp only at h
      by_cases h1 : b=1
      · rw [if_pos h1] at h
        obtain ⟨hfull,hroom⟩ := handleHandshake_daemon h
        refine ⟨?_,handleHandshake_disk h⟩
        by_cases hm : MeetsFullTable e (b::rest)
        · rw [hfull hm]
          exact hn
        · rw [hroom hm]
          exact hn
      rw [if_neg h1] at h
      by_cases h4 : b=4
      · rw [if_pos h4] at h
        exact handleTransport_unledgered hn h
      · rw [if_neg h4] at h
        cases h
        exact ⟨hn,rfl⟩

end Kept

section Runs

variable (S : Suite) (A : Aead) (keys : Keys)

/-- The daemon serves no grants over a log that cannot be replayed, and has not written
into this one. -/
structure Untouched (log : Bytes) (s : Service) : Prop where
  unserved : s.endpoint.daemon.ledger.isSome → ¬Corrupt s.endpoint.disk
  unwritten : s.endpoint.disk.log=log

/-- An attach is refused. -/
def RefusesAttach (o : Option Service) (x : Event) : Prop :=
  ∀s io,o=some s → x=.attachLedger io → AttachRefused io s.endpoint.daemon s.endpoint.disk

/-- An attach finds that the file does not open. -/
def FailsToOpen (o : Option Service) (x : Event) : Prop :=
  ∀s io,o=some s → x=.attachLedger io → OpensOver io s.endpoint.disk=false

def UntouchedIn (log : Bytes) (o : Option Service) : Prop := ∀s,o=some s → Untouched log s

variable {S A keys} {s s' : Service} {x : Event} {log : Bytes}

/-- Nothing but an attach makes a daemon without a ledger serve one or touch the file. -/
theorem event_unledgered (hx : ∀io,x≠.attachLedger io) (hn : s.endpoint.daemon.ledger=none)
    (h : s.step S A keys x=some s') : s'.endpoint.daemon.ledger=none ∧ s'.endpoint.disk=s.endpoint.disk := by
  cases x with
  | input y =>
    obtain ⟨⟨e',acts⟩,he,heq⟩ := Option.map_eq_some_iff.mp h
    cases heq
    exact step_unledgered hn he
  | post body now =>
    cases h
    exact ⟨hn,rfl⟩
  | addResource canonical =>
    cases h
    exact ⟨hn,rfl⟩
  | attachLedger io => exact absurd rfl (hx io)

theorem corrupt_congr {disk disk' : Disk} (h : disk'.log=disk.log) : Corrupt disk' ↔ Corrupt disk := by
  rw [corrupt_iff,corrupt_iff,h]

/-- Over a log that cannot be replayed the daemon is untouched when it has no ledger. -/
theorem untouched_iff {disk : Disk} (hc : Corrupt disk) :
    Untouched disk.log s ↔ s.endpoint.daemon.ledger=none ∧ s.endpoint.disk.log=disk.log := by
  constructor
  · intro h
    refine ⟨?_,h.unwritten⟩
    cases hl : s.endpoint.daemon.ledger with
    | none => rfl
    | some l => exact absurd ((corrupt_congr h.unwritten).mpr hc) (h.unserved (by rw [hl]; rfl))
  · intro h
    refine ⟨?_,h.2⟩
    intro hl
    rw [h.1] at hl
    cases hl

/-- One event: an attach is refused and the daemon stays untouched exactly when the file does not open. -/
theorem event_untouched {disk : Disk} (hc : Corrupt disk) (o : Option Service) (x : Event)
    (h : UntouchedIn disk.log o) :
    (RefusesAttach o x ∧ UntouchedIn disk.log (serve S A keys o x)) ↔ FailsToOpen o x := by
  cases o with
  | none =>
    refine iff_of_true ⟨?_,?_⟩ ?_
    · intro s io hs
      cases hs
    · intro s hs
      cases hs
    · intro s io hs
      cases hs
  | some s =>
    constructor
    · intro hboth s₁ io hs hx
      exact (attachRefused_iff _ _ _).mp (hboth.1 s₁ io hs hx)
    · intro hf
      refine ⟨fun s₁ io hs hx => (attachRefused_iff _ _ _).mpr (hf s₁ io hs hx),?_⟩
      obtain ⟨hn,hlog⟩ := (untouched_iff hc).mp (h s rfl)
      intro s' hs'
      apply (untouched_iff hc).mpr
      by_cases hx : ∀io,x≠.attachLedger io
      · obtain ⟨hnone,hsame⟩ := event_unledgered hx hn hs'
        exact ⟨hnone,by rw [hsame,hlog]⟩
      · obtain ⟨io,rfl⟩ : ∃io,x=.attachLedger io := by
          simpa using hx
        have hshut := hf s io rfl rfl
        rcases open_over io s.endpoint.disk with hopen | hfail
        · rw [hopen.1] at hshut
          cases hshut
        · obtain ⟨_,e,he⟩ := hfail
          have hstep : s.attachLedger io=s := by
            rw [Service.attachLedger,Daemon.attachLedger,he]
          have hsame : some (s.attachLedger io)=some s' := hs'
          rw [hstep] at hsame
          cases hsame
          exact ⟨hn,hlog⟩

end Runs

/-- In a run over a log that cannot be replayed every attach is refused and the log is
neither served nor written exactly when no attach can open the file. -/
theorem corrupt_fatal_iff (S : Suite) (A : Aead) (keys : Keys) (disk : Disk) (hc : Corrupt disk) (xs : List Event) :
    (Meets (serve S A keys) RefusesAttach (some (Service.new S keys disk)) xs ∧
      Always (serve S A keys) (UntouchedIn disk.log) (some (Service.new S keys disk)) xs) ↔
    Meets (serve S A keys) FailsToOpen (some (Service.new S keys disk)) xs := by
  have hstart : UntouchedIn disk.log (some (Service.new S keys disk)) := by
    intro s hs
    cases hs
    exact (untouched_iff hc).mpr ⟨rfl,rfl⟩
  exact meets_always_iff (I := fun _ => True) (fun _ _ _ => trivial) (fun o x _ h => event_untouched hc o x h) _ xs
    trivial hstart

/-- A file of one byte that opens no record. -/
def corruptDisk : Disk := ⟨[0xff],none,[0xff]⟩

def corruptBoot : Service := Service.new sampleSuite responderKeys corruptDisk

theorem corruptDisk_corrupt : Corrupt corruptDisk := rfl

theorem corrupt_fatal_sample :
    (Meets (serve sampleSuite chachaPoly responderKeys) RefusesAttach (some corruptBoot)
        [.attachLedger { Io.good with lock := false }] ∧
      Always (serve sampleSuite chachaPoly responderKeys) (UntouchedIn corruptDisk.log) (some corruptBoot)
        [.attachLedger { Io.good with lock := false }]) ↔
    Meets (serve sampleSuite chachaPoly responderKeys) FailsToOpen (some corruptBoot)
      [.attachLedger { Io.good with lock := false }] :=
  corrupt_fatal_iff sampleSuite chachaPoly responderKeys corruptDisk corruptDisk_corrupt _

/-- The corrupt file is attached, and the first commit that is written takes its place. -/
theorem corrupt_attached :
    Corrupt corruptDisk ∧ ¬AttachRefused .good corruptBoot.endpoint.daemon corruptDisk ∧
      ¬Always (serve sampleSuite chachaPoly responderKeys) (UntouchedIn corruptDisk.log) (some corruptBoot)
        [.attachLedger .good] ∧
      ∀(now : UInt64) (g : Grant),(executeEffect .good now g ⟨some freshHandle,corruptDisk⟩).2.disk.log=
        (commitRecord g).bytes := by
  refine ⟨corruptDisk_corrupt,?_,?_,?_⟩
  · rw [attachRefused_iff]
    decide
  · intro h
    exact (h.2 (corruptBoot.attachLedger .good) rfl).unserved rfl corruptDisk_corrupt
  · intro now g
    have hattach : corruptBoot.endpoint.daemon.attachLedger .good corruptDisk=
        (.ok { corruptBoot.endpoint.daemon with ledger := some freshHandle },corruptDisk) := rfl
    have hwrite := @attached_write .good corruptBoot.endpoint.daemon _ corruptDisk corruptDisk .good now g hattach
      ⟨rfl,rfl⟩
    have hdrop : corruptDisk.log.drop (commitRecord g).bytes.length=[] := by
      apply List.drop_eq_nil_of_le
      exact Nat.succ_le_succ (Nat.zero_le _)
    rw [hdrop,List.append_nil] at hwrite
    exact hwrite

end Bolina
