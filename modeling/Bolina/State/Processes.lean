import Bolina.Framework.GuardedRun
import Bolina.State.LedgerRun
import Mathlib.Logic.Function.Basic

namespace Bolina.State

open BigEndian RecordLog

/-- A prune under way: its time, the image it writes, and the record a commit at the cap
appends when it is done. -/
structure Pruning where
  nowMs : UInt64
  image : Bytes
  next : Option Record
  deriving DecidableEq

/-- The file-system call a process makes next; none while it is idle or has its handle. -/
inductive Phase where
  | idle
  | opening
  | cleaning
  | ready
  | creating (p : Pruning)
  | writing (p : Pruning) (tmp : Nat)
  | replacing (p : Pruning)
  | closing (p : Pruning)
  | reopening (p : Pruning)
  | relocking (p : Pruning)
  | resuming (r : Record)
  deriving DecidableEq

/-- A process, the handle it has, and the inode that the handle's descriptor is open on. -/
structure Proc where
  ledger : GrantLedger
  fd : Option Nat
  phase : Phase

/-- Processes that work on one path. A lock is on an inode and is its process's; `acked` is
the records whose append returned `Ok` and that no prune has dropped as expired. -/
structure Processes (ι : Type) where
  inodes : Nat → Bytes
  path : Nat
  temp : Option Nat
  fresh : Nat
  locks : Nat → Option ι
  procs : ι → Proc
  acked : List Record

inductive Action where
  | start
  | go
  | recover
  | call (c : Call)
  | close
  | quit

def noHandle : GrantLedger := { Caches.empty with file := none,readOnly := false }

def Proc.none : Proc := ⟨noHandle,Option.none,.idle⟩

/-- A commit whose grant has expired. -/
def Record.expiredAt (nowMs : UInt64) : Record → Bool
  | .commit _ expiry => decide (expiry ≤ nowMs)
  | _ => false

/-- The time of the prune that a call starts with, and the record it goes on to append. -/
def Call.prune (c : Caches) : Call → Option (UInt64 × Option Record)
  | .pruneExpired nowMs => if c.expired nowMs=[] then none else some (nowMs,none)
  | .commitConsumed id expiryMs nowMs =>
    if id∈c.consumed ∨ id∈c.published then none
    else if maxLive ≤ c.consumed.keys.length then
      if c.expired nowMs=[] then none else some (nowMs,some (.commit id expiryMs))
    else none
  | _ => none

/-- The record that a call has appended when it returns `Ok`. -/
def Call.appended (c : Caches) (call : Call) : Except LedgerError Unit → Option Record
  | .ok _ => call.record.filter (fun r => !decide (c.Holds r))
  | .error _ => none

namespace Processes

variable {ι : Type} [DecidableEq ι]

def set (s : Processes ι) (p : ι) (pr : Proc) : Processes ι := { s with procs := Function.update s.procs p pr }

/-- The descriptors of the process are closed, and with them go its locks. -/
def unlock (s : Processes ι) (p : ι) : Processes ι :=
  { s with locks := fun n => if s.locks n=some p then none else s.locks n }

def lock (s : Processes ι) (p : ι) (n : Nat) : Processes ι := { s with locks := Function.update s.locks n (some p) }

/-- The handle of a process and the file it is open on. -/
def store (s : Processes ι) (p : ι) : Store :=
  ⟨(s.procs p).ledger,⟨(s.procs p).fd.elim [] s.inodes,none,[]⟩⟩

/-- The process has its handle back, as a call on the file leaves it. -/
def put (s : Processes ι) (p : ι) (st : Store) : Processes ι :=
  { s with inodes := (s.procs p).fd.elim s.inodes (fun n => Function.update s.inodes n st.disk.log) }.set p
    { s.procs p with ledger := st.ledger,phase := .ready }

def ack (s : Processes ι) (r : Option Record) : Processes ι := { s with acked := s.acked++r.toList }

/-- The process has its handle, and whatever it was at is over. -/
def idle (s : Processes ι) (p : ι) : Processes ι := s.set p { s.procs p with phase := .ready }

/-- The next file-system call of an open or a prune. -/
def go (io : Io) (p : ι) (s : Processes ι) : Processes ι :=
  let pr := s.procs p
  match pr.phase with
  | .idle => s
  | .ready => s
  | .opening =>
    match pr.fd with
    | none => s
    | some n =>
      if !io.lock || (s.locks n).isSome then s.set p Proc.none
      else (s.lock p n).set p { pr with phase := .cleaning }
  | .cleaning =>
    if s.temp.isSome && !io.removeTemp then (s.unlock p).set p Proc.none
    else
      { s with temp := none }.set p
        { pr with ledger := { Caches.empty with file := some 0,readOnly := false },phase := .ready }
  | .creating P =>
    if !io.createTemp then s.idle p
    else
      let t := s.temp.getD s.fresh
      { s with inodes := Function.update s.inodes t [],temp := some t,fresh := max s.fresh (t+1) }.set p
        { pr with phase := .writing P t }
  | .writing P t =>
    match io.writeTemp with
    | some k => { s with inodes := Function.update s.inodes t (P.image.take k) }.idle p
    | none =>
      { s with inodes := Function.update s.inodes t P.image }.set p
        { pr with phase := if io.syncTemp then .replacing P else .ready }
  | .replacing P =>
    match s.temp with
    | none => s.idle p
    | some t =>
      if !io.rename then s.idle p
      else { s with path := t,temp := none }.set p { pr with phase := .closing P }
  | .closing P => (s.unlock p).set p { pr with ledger := pr.ledger.close,fd := none,phase := .reopening P }
  | .reopening P =>
    -- from here to the new lock the handle has no file, and a failure leaves it so
    if !io.reopen then s.set p { pr with ledger := pr.ledger.close,fd := none,phase := .ready }
    else s.set p { pr with fd := some s.path,phase := .relocking P }
  | .relocking P =>
    match pr.fd with
    | none => s
    | some n =>
      if !io.relock || (s.locks n).isSome then
        s.set p { pr with ledger := pr.ledger.close,fd := none,phase := .ready }
      else
        (s.lock p n).set p { pr with
          ledger := { pr.ledger with file := some 0 }
          phase := match P.next with | some r => .resuming r | none => .ready }
  | .resuming r =>
    if maxLive ≤ pr.ledger.consumed.keys.length then s.idle p
    else
      match (s.store p).logRecord io r with
      | (.ok _,st) => (s.put p st).ack (some r)
      | (.error _,st) => s.put p st

/-- A call on the handle. One that prunes drops what has expired and goes on step by step. -/
def call (io : Io) (p : ι) (c : Call) (s : Processes ι) : Processes ι :=
  let pr := s.procs p
  match c.prune pr.ledger.toCaches with
  | some (nowMs,next) =>
    let caches := pr.ledger.dropExpired nowMs
    { s with acked := s.acked.filter (fun r => !r.expiredAt nowMs) }.set p
      { pr with
        ledger := { pr.ledger with toCaches := caches }
        phase := .creating ⟨nowMs,caches.image io,next⟩ }
  | none =>
    match c.run io (s.store p) with
    | (res,st) => (s.put p st).ack (c.appended pr.ledger.toCaches res)

/-- What a process does next; an action that it is not ready for changes nothing. -/
def step (s : Processes ι) (x : ι × Io × Action) : Processes ι :=
  let (p,io,a) := x
  match a with
  | .go => s.go io p
  | .quit => (s.unlock p).set p Proc.none
  | .start =>
    if (s.procs p).phase=.idle ∧ io.openFile=true then s.set p ⟨noHandle,some s.path,.opening⟩ else s
  | .recover => if (s.procs p).phase=.ready then s.put p (Store.recover io (s.store p)).2 else s
  | .call c => if (s.procs p).phase=.ready then s.call io p c else s
  | .close =>
    if (s.procs p).phase=.ready then
      (s.unlock p).set p { s.procs p with ledger := (s.procs p).ledger.close,fd := none }
    else s

/-- A file at the path, a temporary file that may be left next to it, and no process yet. -/
def boot (log : Bytes) (stale : Option Bytes) : Processes ι where
  inodes n := if n=0 then log else stale.getD []
  path := 0
  temp := stale.map (fun _ => 1)
  fresh := 2
  locks _ := none
  procs _ := Proc.none
  acked := []

/-- The process has a handle on which an append returns `Ok`. -/
def Writable (s : Processes ι) (p : ι) : Prop :=
  (s.procs p).phase=.ready ∧ ∃io rec,((s.store p).append io rec).1=.ok ()

/-- No two processes have a handle they can write with. -/
def SingleWriter (s : Processes ι) : Prop := ∀p q,s.Writable p → s.Writable q → p=q

/-- Every acknowledged record is in the file at the path. -/
def Kept (s : Processes ι) : Prop := ∀r∈s.acked,r∈ledgerFormat.records (s.inodes s.path)

/-- The steps of a prune that nothing comes between amount to `prune_expired`. -/
theorem alone_prune (io : Io) (hio : io.Replaces) (s : Processes ι) (p : ι) (nowMs : UInt64)
    (hph : (s.procs p).phase=.ready) (hro : (s.procs p).ledger.readOnly=false)
    (he : (s.procs p).ledger.expired nowMs≠[]) (hfree : s.locks (s.temp.getD s.fresh)=none) :
    let s' := ([.call (.pruneExpired nowMs),.go,.go,.go,.go,.go,.go].map (fun a => (p,io,a))).foldl step s
    s'.store p=⟨((s.store p).pruneExpired io nowMs).2.ledger,⟨((s.store p).pruneExpired io nowMs).2.disk.log,none,[]⟩⟩ ∧
      (s'.procs p).phase=.ready ∧ (s'.procs p).fd=some s'.path ∧ s'.temp=none := by
  obtain ⟨hcreate,hwrite,hsync,hrename,hreopen,hrelock⟩ := hio
  have hprune : (s.store p).pruneExpired io nowMs=
      (.ok (),((s.store p).dropped nowMs).replaced (((s.procs p).ledger.dropExpired nowMs).image io) (some 0)) := by
    obtain ⟨-,hr⟩|⟨-,-,hr⟩|⟨heq,-,-⟩ := pruneExpired_cases io (s.store p) nowMs
    · exact absurd (hro.symm.trans hr) Bool.false_ne_true
    · exact absurd hr he
    · rw [heq,Store.rewrite]
      simp [hcreate,hwrite,hsync,hrename,hreopen,hrelock,Store.replaced]
      rfl
  rw [hprune]
  -- the seven steps, one after the other
  simp [step,call,go,Call.prune,set,lock,unlock,store,Store.replaced,Store.dropped,GrantLedger.close,hph,he,hfree,
    hcreate,hwrite,hsync,hrename,hreopen,hrelock]

end Processes

end Bolina.State
