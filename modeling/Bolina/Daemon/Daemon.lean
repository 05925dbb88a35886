import Bolina.Control.ControlApi
import Bolina.State.LedgerRun

namespace Bolina

open Codec Intent State Transport Control

/-- What a dispatch of an envelope reads and writes of the node. `certs` holds the
bound certificates as they came in, under the key of their sender. -/
structure Daemon where
  sigPub : Bytes
  ledger : Option GrantLedger
  intents : Table
  senders : SenderTable
  resolver : Resolver
  ring : EventRing
  rejectedTotal : Nat
  wire : WireCounters
  certs : List (Bytes × Bytes)

def Daemon.new (K : Crypto) (sigPub : Bytes) : Daemon where
  sigPub
  ledger := none
  intents := Table.new
  senders := SenderTable.new
  resolver := Resolver.new K sigPub
  ring := EventRing.new
  rejectedTotal := 0
  wire := WireCounters.new
  certs := []

/-- The file is opened and not recovered. -/
def Daemon.attachLedger (io : Io) (d : Daemon) (disk : Disk) : Except LedgerError Daemon × Disk :=
  match GrantLedger.open io disk with
  | (.error e,disk') => (.error e,disk')
  | (.ok l,disk') => (.ok { d with ledger := some l },disk')

/-- The array a grant id is copied to; it stays zeroed for an id of another length. -/
def grantKey (grantId : Bytes) : GrantId := fixed 16 (if grantId.length=16 then grantId else [])

/-- The shipped effect hook: it spends the grant, drops the result of the commit and
refuses. The ledger is borrowed by nobody else while it runs. -/
def executeEffect (io : Io) (now : UInt64) (g : Grant) (n : Node) : EffectOutcome × Node :=
  match n.ledger with
  | none => (.Refused,n)
  | some l =>
    (.Refused,(Store.commitConsumed io ⟨l,n.disk⟩ (grantKey g.grantId) g.notAfter now).2.node)

def alreadyConsumed (n : Node) (grantId : Bytes) (_ _ : UInt64) : Bool :=
  match n.ledger with
  | none => false
  | some l => l.isConsumed (grantKey grantId)

/-- The hooks over a ledger, for any source of certificates. -/
def ledgerHooks (io : Io) (now : UInt64) (certForSender : Bytes → Option Cert) : Hooks Node where
  executeEffect := executeEffect io now
  certForSender := certForSender
  onRejected _ n := n
  isRevoked _ _ := false
  alreadyConsumed := alreadyConsumed

def Daemon.parsedCerts (d : Daemon) : List (Bytes × Cert) :=
  d.certs.filterMap (fun kw =>
    match parseCert kw.2 with
    | .ok c => some (kw.1,c)
    | .error _ => none)

def Daemon.certForSender (d : Daemon) (sender : Bytes) : Option Cert :=
  (d.parsedCerts.find? (fun kc => kc.1==sender)).map (fun kc => kc.2)

def Daemon.dispatcher (d : Daemon) : Dispatch := ⟨d.resolver,d.intents,d.senders,d.sigPub⟩

/-- The tables and the ledger as a dispatch left them. -/
def Daemon.store (d : Daemon) (t : Dispatch) (n : Node) : Daemon :=
  { d with intents := t.intentTable,senders := t.senderTable,ledger := n.ledger }

/-- The counter and the event of an outcome; two outcomes have no event. -/
def Daemon.report (d : Daemon) : Outcome → Daemon
  | .IntentAdmitted =>
    { d with
      wire := { d.wire with admissionsTotal := d.wire.admissionsTotal+1 }
      ring := d.ring.publish .IntentAdmitted }
  | .GrantExecuted => { d with ring := d.ring.publish .GrantExecuted }
  | .EffectRefused => { d with ring := d.ring.publish .EffectRefused }
  | .RefusalApplied => { d with ring := d.ring.publish .RefusalApplied }
  | .Control => { d with ring := d.ring.publish .ControlApplied }
  | .Effect => d
  | .Utterance => d

def Daemon.reject (d : Daemon) (e : DispatchError) : Daemon :=
  { d with
    rejectedTotal := d.rejectedTotal+1
    wire := d.wire.bump (WireRejectClass.ofDispatch e) }

/-- `none` when the dispatch panics and the process ends. -/
def Daemon.dispatchEnvelope (K : Crypto) (io : Io) (now : UInt64) (plain : Bytes) (d : Daemon)
    (disk : Disk) : Option (Daemon × Disk) :=
  match d.dispatcher.dispatch K plain (ledgerHooks io now d.certForSender) now ⟨d.ledger,disk⟩ with
  | (.error .panic,_,_) => none
  | (.error (.err e),t,n) => some ((d.store t n).reject e,n.disk)
  | (.ok outcome,t,n) => some ((d.store t n).report outcome,n.disk)

/-- The grants on which the dispatch of one envelope runs the effect hook. -/
def Daemon.executed (K : Crypto) (io : Io) (now : UInt64) (plain : Bytes) (d : Daemon) (disk : Disk) :
    List Grant :=
  d.dispatcher.executed K plain (ledgerHooks io now d.certForSender) now ⟨d.ledger,disk⟩

/-- The hook makes the ledger's call and nothing else. -/
theorem executeEffect_eq (io : Io) (now : UInt64) (g : Grant) (n : Node) :
    executeEffect io now g n=
      (.Refused,n.step (io,.call (.commitConsumed (grantKey g.grantId) g.notAfter now))) := by
  rw [executeEffect,Node.step]
  cases n.ledger <;> rfl

section Dispatched

variable {K : Crypto} {io : Io} {now : UInt64} {plain : Bytes} {d : Daemon} {disk : Disk} {g : Grant}

theorem mem_executed : g∈d.executed K io now plain disk ↔
    Executes K d.dispatcher plain (ledgerHooks io now d.certForSender) now ⟨d.ledger,disk⟩ g :=
  mem_executed_iff

/-- An executed grant is reported as refused, whatever the commit did. -/
theorem dispatchEnvelope_of_executed (h : g∈d.executed K io now plain disk) :
    d.dispatchEnvelope K io now plain disk=
      some ((d.store d.dispatcher (executeEffect io now g ⟨d.ledger,disk⟩).2).report .EffectRefused,
        (executeEffect io now g ⟨d.ledger,disk⟩).2.disk) := by
  have ho : ((ledgerHooks io now d.certForSender).executeEffect g ⟨d.ledger,disk⟩).1.outcome=
      .EffectRefused := by
    show (executeEffect io now g _).1.outcome=_
    rw [executeEffect_eq]
    rfl
  rw [Daemon.dispatchEnvelope,dispatch_of_executes (mem_executed.mp h),ho]
  rfl

/-- A message that executes nothing leaves the ledger and its file alone. -/
theorem dispatchEnvelope_frame (h : d.executed K io now plain disk=[]) (d' : Daemon) (disk' : Disk)
    (hd : d.dispatchEnvelope K io now plain disk=some (d',disk')) : d'.ledger=d.ledger ∧ disk'=disk := by
  have hn : ∀g,¬Executes K d.dispatcher plain (ledgerHooks io now d.certForSender) now ⟨d.ledger,disk⟩ g := by
    intro g hx
    have hm := mem_executed.mpr hx
    rw [h] at hm
    cases hm
  have hs := (dispatch_of_not_executes hn).state
  rw [Daemon.dispatchEnvelope] at hd
  cases hr : d.dispatcher.dispatch K plain (ledgerHooks io now d.certForSender) now ⟨d.ledger,disk⟩ with
  | mk res tn =>
    obtain ⟨t,n⟩ := tn
    rw [hr] at hs hd
    have hnode : n=⟨d.ledger,disk⟩ := by
      obtain hs|⟨_,hs⟩ := hs
      · exact hs
      · exact hs
    subst hnode
    cases res with
    | error a =>
      cases a with
      | panic => cases hd
      | err e =>
        cases hd
        exact ⟨rfl,rfl⟩
    | ok o =>
      cases hd
      cases o <;> exact ⟨rfl,rfl⟩

end Dispatched

end Bolina
