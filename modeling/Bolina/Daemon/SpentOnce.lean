import Bolina.Daemon.Ledgered
import Bolina.Framework.GuardedRun

namespace Bolina

open Codec Intent State Transport Control GuardedRun

/-- A dispatcher over a ledger. -/
structure Wired where
  dispatch : Dispatch
  node : Node

inductive WiredStep where
  | dispatch (envBytes : Bytes) (nowMs : UInt64) (certForSender : Bytes → Option Cert)
  | restart (resolver : Resolver)

def Daemon.wired (d : Daemon) (disk : Disk) : Wired := ⟨d.dispatcher,⟨d.ledger,disk⟩⟩

/-- A fresh daemon with the resources declared at boot, and the ledger attached to it. -/
def Wired.boot (K : Crypto) (io : Io) (ownPubkey : Bytes) (resolver : Resolver) (disk : Disk) : Wired :=
  let d := { Daemon.new K ownPubkey with resolver }
  match d.attachLedger io disk with
  | (.error _,disk') => d.wired disk'
  | (.ok d',disk') => d'.wired disk'

def Wired.step (K : Crypto) (w : Wired) : Io × WiredStep → Wired
  | (io,.dispatch envBytes nowMs certForSender) =>
    match w.dispatch.dispatch K envBytes (ledgerHooks io nowMs certForSender) nowMs w.node with
    | (_,t,n) => ⟨t,n⟩
  | (io,.restart resolver) => Wired.boot K io w.dispatch.ownPubkey resolver w.node.disk

/-- The daemon is such a dispatcher: handing it an envelope is a step. -/
theorem dispatchEnvelope_wired (K : Crypto) (io : Io) (now : UInt64) (plain : Bytes) (d d' : Daemon)
    (disk disk' : Disk) (h : d.dispatchEnvelope K io now plain disk=some (d',disk')) :
    d'.wired disk'=(d.wired disk).step K (io,.dispatch plain now d.certForSender) := by
  have hsame := dispatch_same K d.dispatcher plain (ledgerHooks io now d.certForSender) now ⟨d.ledger,disk⟩
  rw [Daemon.dispatchEnvelope] at h
  simp only [Daemon.wired,Wired.step]
  cases hr : d.dispatcher.dispatch K plain (ledgerHooks io now d.certForSender) now ⟨d.ledger,disk⟩ with
  | mk res tn =>
    obtain ⟨t,n⟩ := tn
    rw [hr] at h hsame
    have hnode : ∀d₁ : Daemon,d₁.dispatcher=(d.store t n).dispatcher → d₁.dispatcher=t := by
      intro d₁ h₁
      obtain ⟨hres,hkey⟩ := hsame
      rw [h₁]
      cases t
      simp only at hres hkey
      rw [hres,hkey]
      rfl
    cases res with
    | error a =>
      cases a with
      | panic => cases h
      | err e =>
        cases h
        exact congrArg (fun t => (⟨t,n⟩ : Wired)) (hnode _ rfl)
    | ok o =>
      cases h
      have hd : ((d.store t n).report o).dispatcher=t := hnode _ (by cases o <;> rfl)
      have hl : ((d.store t n).report o).ledger=n.ledger := by cases o <;> rfl
      rw [hd,hl]

/-- The grants a step runs the effect hook on. -/
def Wired.executed (K : Crypto) (w : Wired) : Io × WiredStep → List Grant
  | (io,.dispatch envBytes nowMs certForSender) =>
    w.dispatch.executed K envBytes (ledgerHooks io nowMs certForSender) nowMs w.node
  | (_,.restart _) => []

def Wired.executes (K : Crypto) (id : GrantId) (w : Wired) (x : Io × WiredStep) : Bool :=
  (w.executed K x).any (fun g => g.grantId==id.toList)

/-- The envelope of a dispatch carries this grant, and the grant passes every check. -/
def Wired.Brings (K : Crypto) (w : Wired) (g : Grant) (io : Io) (envBytes : Bytes) (nowMs : UInt64)
    (certForSender : Bytes → Option Cert) : Prop :=
  Executes K w.dispatch envBytes (ledgerHooks io nowMs certForSender) nowMs w.node g

/-- No commit of the step prunes an entry away. -/
def PrunesNothing (K : Crypto) (w : Wired) : Io × WiredStep → Prop
  | (io,.dispatch envBytes nowMs certForSender) =>
    ∀g,w.Brings K g io envBytes nowMs certForSender → ∀l∈w.node.ledger,
      ∀now,¬(commitCall nowMs g).Rewrites l.toCaches now
  | (_,.restart _) => True

/-- A restart comes while the id is not spent, and the commit of an authorised grant
with this id is written and synced. -/
def Remembers (K : Crypto) (id : GrantId) (w : Wired) : Io × WiredStep → Prop
  | (io,.dispatch envBytes nowMs certForSender) =>
    ∀g,w.Brings K g io envBytes nowMs certForSender → g.grantId=id.toList →
      ∃l∈w.node.ledger,(commitCall nowMs g).Writes l.toCaches (commitRecord g) ∧
        l.readOnly=false ∧ l.file.isSome=true ∧ io.Appends
  | (_,.restart _) => ∀l∈w.node.ledger,id∉l.consumed

/-- The ledger in memory knows the id as consumed. -/
def Spent (id : GrantId) (n : Node) : Prop := ∃l∈n.ledger,id∈l.consumed

section SpentOnce

variable {K : Crypto} {io : Io} {nowMs : UInt64} {id : GrantId} {g : Grant} {l : GrantLedger} {w : Wired}
variable {envBytes : Bytes} {certForSender : Bytes → Option Cert}

theorem grantKey_of_eq (h : g.grantId=id.toList) : grantKey g.grantId=id := by
  have hl : g.grantId.length=16 := by
    rw [h]
    exact id.toList_length
  rw [grantKey,if_pos hl,h,fixed_toList]

/-- A spent grant is refused. -/
theorem executes_of_spent (x : Io × WiredStep) (hs : Spent id w.node) : w.executes K id x=false := by
  obtain ⟨io,step⟩ := x
  cases step with
  | restart resolver => rfl
  | dispatch envBytes nowMs certForSender =>
    rw [Wired.executes,List.any_eq_false]
    intro g hg he
    have hid : g.grantId=id.toList := eq_of_beq he
    obtain ⟨env,cert,_,_,_,_,ha,_⟩ := (mem_executed_iff.mp hg).passes
    obtain ⟨l,hl,hm⟩ := hs
    have hf : alreadyConsumed w.node g.grantId g.notAfter nowMs=false := ha.fresh
    have hl' : w.node.ledger=some l := hl
    rw [alreadyConsumed,hl',grantKey_of_eq hid] at hf
    exact of_decide_eq_false hf hm

/-- The node after a dispatch that executed a grant has run the ledger's commit. -/
theorem step_of_brings (hx : w.Brings K g io envBytes nowMs certForSender) :
    (w.step K (io,.dispatch envBytes nowMs certForSender)).node=
      w.node.step (io,.call (commitCall nowMs g)) := by
  rw [Wired.step,dispatch_of_executes hx]
  show (executeEffect io nowMs g w.node).2=_
  rw [executeEffect_eq]
  rfl

theorem step_of_idle (hn : ∀g,¬w.Brings K g io envBytes nowMs certForSender) :
    (w.step K (io,.dispatch envBytes nowMs certForSender)).node=w.node := by
  obtain hs|⟨_,hs⟩ := (dispatch_of_not_executes hn).state
  · exact hs
  · exact hs

/-- Appending a commit keeps what is consumed. -/
theorem consumed_of_logRecord (s : Store) (g : Grant) (hs : id∈s.ledger.consumed) :
    id∈(s.logRecord io (commitRecord g)).2.ledger.consumed := by
  obtain ⟨h,_⟩|⟨pos,put,_,_,h,_⟩|⟨pos,_,_,_,h⟩ := logRecord_cases io s (commitRecord g)
  · rw [h]
    exact hs
  · rw [h]
    exact hs
  · rw [h]
    exact AList.mem_insert _ |>.mpr (Or.inr hs)

/-- A commit that prunes nothing keeps what is consumed. -/
theorem consumed_of_commit (s : Store) (g : Grant)
    (hp : ∀now,¬(commitCall nowMs g).Rewrites s.ledger.toCaches now) (hs : id∈s.ledger.consumed) :
    id∈((commitCall nowMs g).run io s).2.ledger.consumed := by
  apply @run_preserves (fun s => id∈s.ledger.consumed) io s (commitCall nowMs g) hs
  · intro now hr
    exact absurd hr (hp now)
  · intro r hw
    have hr : r=commitRecord g := Option.some.inj (hw.1.symm.trans rfl)
    rw [hr]
    exact consumed_of_logRecord s g hs
  · intro now r hw
    exact absurd hw.1 (hp now)

/-- What a step keeps: an id that is spent stays spent. -/
theorem spent_kept (x : Io × WiredStep) (hp : PrunesNothing K w x) (hr : Remembers K id w x)
    (hs : Spent id w.node) : Spent id (w.step K x).node := by
  obtain ⟨io,step⟩ := x
  obtain ⟨l,hl,hm⟩ := hs
  cases step with
  | restart resolver => exact absurd hm (hr l hl)
  | dispatch envBytes nowMs certForSender =>
    by_cases hx : ∃g,w.Brings K g io envBytes nowMs certForSender
    · obtain ⟨g,hx⟩ := hx
      have hl' : w.node.ledger=some l := hl
      rw [step_of_brings hx,Node.step,hl']
      exact ⟨_,rfl,consumed_of_commit ⟨l,w.node.disk⟩ g (hp g hx l hl) hm⟩
    · rw [step_of_idle (fun g hg => hx ⟨g,hg⟩)]
      exact ⟨l,hl,hm⟩

/-- What an execution does: it spends its id. -/
theorem spent_after (x : Io × WiredStep) (hr : Remembers K id w x) (he : w.executes K id x=true) :
    Spent id (w.step K x).node := by
  obtain ⟨io,step⟩ := x
  cases step with
  | restart resolver => cases he
  | dispatch envBytes nowMs certForSender =>
    rw [Wired.executes,List.any_eq_true] at he
    obtain ⟨g,hg,hid⟩ := he
    have hid' : g.grantId=id.toList := eq_of_beq hid
    have hx : w.Brings K g io envBytes nowMs certForSender := mem_executed_iff.mp hg
    obtain ⟨l,hl,hw,hro,hf,hio⟩ := hr g hx hid'
    obtain ⟨pos,hpos⟩ := Option.isSome_iff_exists.mp hf
    have hl' : w.node.ledger=some l := hl
    rw [step_of_brings hx,Node.step,hl']
    simp only
    rw [run_of_writes io ⟨l,w.node.disk⟩ _ _ hw,logRecord_of_appends io _ _ pos hio hro hpos]
    refine ⟨_,rfl,?_⟩
    rw [← grantKey_of_eq hid']
    exact AList.mem_insert _ |>.mpr (Or.inl rfl)

/-- Being consumed in memory is what stops the second execution. -/
theorem spends (K : Crypto) (id : GrantId) : Spends (Wired.step K) (Wired.executes K id)
    (fun w x => PrunesNothing K w x ∧ Remembers K id w x) (fun w => Spent id w.node) where
  refuse _ x _ hs := executes_of_spent x hs
  keep _ x hg hs := spent_kept x hg.1 hg.2 hs
  spend _ x hg he := spent_after x hg.2 he

/-- A grant is executed at most once in a run that prunes nothing, as long as no
restart follows its commit and the commit itself goes through. -/
theorem spent_once (K : Crypto) (id : GrantId) (w : Wired) (steps : List (Io × WiredStep))
    (hp : Meets (Wired.step K) (PrunesNothing K) w steps)
    (hr : Meets (Wired.step K) (Remembers K id) w steps) :
    count (Wired.step K) (Wired.executes K id) w steps≤1 :=
  (spends K id).count_le_one w steps (meets_and w steps hp hr)

/-- Room below the cap: what keeps a commit from pruning. -/
def HasRoom (w : Wired) (_ : Io × WiredStep) : Prop :=
  ∀l∈w.node.ledger,l.consumed.keys.length < maxLive

/-- The usual case of a step that remembers: its grants are fresh and the write goes
through. -/
def WritesFresh (K : Crypto) (id : GrantId) (w : Wired) : Io × WiredStep → Prop
  | (io,.dispatch envBytes nowMs certForSender) =>
    ∀g∈w.executed K (io,.dispatch envBytes nowMs certForSender),
      (∃l∈w.node.ledger,(grantKey g.grantId∉l.consumed ∧ grantKey g.grantId∉l.published) ∧
        l.consumed.keys.length < maxLive ∧ l.readOnly=false ∧ l.file.isSome=true) ∧
      io.write=none ∧ io.sync=true
  | (_,.restart _) => ∀l∈w.node.ledger,id∉l.consumed

instance (w : Wired) (x : Io × WiredStep) : Decidable (HasRoom w x) :=
  inferInstanceAs (Decidable (∀_∈_,_))

instance (K : Crypto) (id : GrantId) (w : Wired) (x : Io × WiredStep) : Decidable (WritesFresh K id w x) :=
  match x with
  | (_,.dispatch _ _ _) => inferInstanceAs (Decidable (∀_∈_,_))
  | (_,.restart _) => inferInstanceAs (Decidable (∀_∈_,_))

theorem prunesNothing_of_room (w : Wired) (x : Io × WiredStep) (h : HasRoom w x) :
    PrunesNothing K w x := by
  obtain ⟨io,step⟩ := x
  cases step with
  | restart resolver => trivial
  | dispatch envBytes nowMs certForSender =>
    intro g _ l hl now hr
    obtain hc|⟨_,_,_,_,hf⟩ := hr.2
    · cases hc
    · exact absurd (h l hl) (Nat.not_lt.mpr hf)

theorem remembers_of_writesFresh (w : Wired) (x : Io × WiredStep) (h : WritesFresh K id w x) :
    Remembers K id w x := by
  obtain ⟨io,step⟩ := x
  cases step with
  | restart resolver => exact h
  | dispatch envBytes nowMs certForSender =>
    intro g hg _
    obtain ⟨⟨l,hl,hfresh,hroom,hro,hf⟩,hw,hs⟩ := h g (mem_executed_iff.mpr hg)
    have hholds : ¬l.Holds (commitRecord g) := not_or.mpr hfresh
    have hfull : ¬l.Full (commitRecord g) := Nat.not_le.mpr hroom
    exact ⟨l,hl,⟨rfl,hholds,hfull⟩,hro,hf,⟨hw,hs⟩⟩

end SpentOnce

def sampleStart : Wired := Wired.boot sampleCrypto Io.good nodeKey bootedDaemon.resolver emptyDisk

def intentStep : Io × WiredStep :=
  (Io.good,.dispatch (encodeEnvelope intentEnvelope) 1000000 bootedDaemon.certForSender)

def grantStep : Io × WiredStep :=
  (Io.good,.dispatch (encodeEnvelope grantEnvelope) 1000000 bootedDaemon.certForSender)

def restartStep : Io × WiredStep := (Io.good,.restart bootedDaemon.resolver)

theorem spent_once_sample :
    count (Wired.step sampleCrypto) (Wired.executes sampleCrypto (grantKey sampleGrant.grantId))
      sampleStart [restartStep,intentStep,grantStep,grantStep]≤1 := by
  have hroom : Meets (Wired.step sampleCrypto) HasRoom sampleStart
      [restartStep,intentStep,grantStep,grantStep] := by decide +kernel
  have hfresh : Meets (Wired.step sampleCrypto)
      (WritesFresh sampleCrypto (grantKey sampleGrant.grantId)) sampleStart
      [restartStep,intentStep,grantStep,grantStep] := by decide +kernel
  exact spent_once sampleCrypto _ sampleStart _ (meets_mono prunesNothing_of_room _ _ hroom)
    (meets_mono remembers_of_writesFresh _ _ hfresh)

/-- The restart opens the ledger and does not read it back: the same intent and the
same grant are accepted again. -/
theorem executed_again_after_restart :
    Meets (Wired.step sampleCrypto) (PrunesNothing sampleCrypto) sampleStart
      [intentStep,grantStep,restartStep,intentStep,grantStep] ∧
    count (Wired.step sampleCrypto) (Wired.executes sampleCrypto (grantKey sampleGrant.grantId))
      sampleStart [intentStep,grantStep,restartStep,intentStep,grantStep]=2 := by
  have hroom : Meets (Wired.step sampleCrypto) HasRoom sampleStart
      [intentStep,grantStep,restartStep,intentStep,grantStep] := by decide +kernel
  exact ⟨meets_mono prunesNothing_of_room _ _ hroom,by decide +kernel⟩

end Bolina
