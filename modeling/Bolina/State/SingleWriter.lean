import Bolina.State.LedgerTorn
import Bolina.State.Processes

namespace Bolina.State

open BigEndian RecordLog GuardedRun KeyedFold

variable {ι : Type} [DecidableEq ι]

/-- The process has the lock of the file at the path, or ought to. -/
def Proc.Holds (pr : Proc) : Prop :=
  match pr.phase with
  | .cleaning => True
  | .creating _ => True
  | .writing _ _ => True
  | .replacing _ => True
  | .resuming _ => True
  | .ready => pr.fd≠Option.none
  | _ => False

/-- A lock that is taken is on the inode at the path, and a handle that prunes is open. -/
structure Orderly (s : Processes ι) (x : ι × Io × Action) : Prop where
  locks : ∀n,x.2.2=.go → (s.procs x.1).fd=some n → s.locks n=none →
    ((s.procs x.1).phase=.opening ∨ ∃P,(s.procs x.1).phase=.relocking P) → n=s.path
  prunes : ∀c,x.2.2=.call c → (s.procs x.1).phase=.ready → c.prune (s.procs x.1).ledger.toCaches≠none →
    (s.procs x.1).fd≠none

/-- Who holds the file at the path has its lock, and a handle without a descriptor is closed. -/
structure Sole (s : Processes ι) : Prop where
  held : ∀p,(s.procs p).Holds → (s.procs p).fd=some s.path ∧ s.locks s.path=some p
  handle : ∀p,(s.procs p).fd=none → (s.procs p).ledger.file=none

/-- What a step of a process does to the path and the locks. -/
inductive Moves (s : Processes ι) (p : ι) (s' : Processes ι) (pr : Proc) : Prop
  | stays (path : s'.path=s.path) (locks : s'.locks=s.locks)
      (holds : pr.Holds → (s.procs p).Holds ∧ pr.fd=(s.procs p).fd)
  | leaves (path : s'.path=s.path) (locks : s'.locks=(s.unlock p).locks) (out : ¬pr.Holds)
  | takes (free : s.locks s.path=none) (path : s'.path=s.path) (locks : s'.locks=(s.lock p s.path).locks)
      (fd : pr.fd=some s.path)
  | renames (held : (s.procs p).Holds) (locks : s'.locks=s.locks) (out : ¬pr.Holds)

theorem sole_of_moves {s s' : Processes ι} {p : ι} {pr : Proc} (hs : Sole s)
    (hp : s'.procs=Function.update s.procs p pr) (hc : pr.fd=none → pr.ledger.file=none)
    (hm : Moves s p s' pr) : Sole s' := by
  have hself : s'.procs p=pr := by rw [hp,Function.update_self]
  have hother : ∀q,q≠p → s'.procs q=s.procs q := fun q hq => by rw [hp,Function.update_of_ne hq]
  constructor
  · intro q hq
    by_cases hqp : q=p
    · subst hqp
      rw [hself] at hq ⊢
      cases hm with
      | stays path locks holds =>
        obtain ⟨hold,hfd⟩ := holds hq
        rw [path,locks,hfd]
        exact hs.held q hold
      | leaves path locks out => exact absurd hq out
      | takes free path locks fd =>
        rw [path,locks]
        exact ⟨fd,Function.update_self _ _ _⟩
      | renames held locks out => exact absurd hq out
    · rw [hother q hqp] at hq ⊢
      obtain ⟨hfd,hlock⟩ := hs.held q hq
      cases hm with
      | stays path locks holds =>
        rw [path,locks]
        exact ⟨hfd,hlock⟩
      | leaves path locks out =>
        have hkeep : s.locks s.path≠some p := fun hl => hqp (Option.some.inj (hlock.symm.trans hl))
        rw [path,locks]
        exact ⟨hfd,(if_neg hkeep).trans hlock⟩
      | takes free path locks fd =>
        rw [free] at hlock
        cases hlock
      | renames held locks out =>
        have hown := (hs.held p held).2
        rw [hlock] at hown
        exact absurd (Option.some.inj hown) hqp
  · intro q hq
    by_cases hqp : q=p
    · subst hqp
      rw [hself] at hq ⊢
      exact hc hq
    · rw [hother q hqp] at hq ⊢
      exact hs.handle q hq

/-- Without a descriptor nothing is written. -/
theorem logRecord_closed (io : Io) (s : Store) (r : Record) (h : s.ledger.file=none) :
    s.logRecord io r=(.error .DiskError,s) := by
  obtain ⟨heq,_⟩|⟨pos,put,_,hf,_⟩|⟨pos,_,hf,_⟩ := logRecord_cases io s r
  · exact heq
  · rw [h] at hf
    cases hf
  · rw [h] at hf
    cases hf

theorem recover_closed (io : Io) (s : Store) (h : s.ledger.file=none) : (Store.recover io s).2=s := by
  rw [Store.recover,h]

/-- A call that prunes is one that rewrites the file. -/
theorem prune_of_rewrites {c : Caches} {call : Call} {nowMs : UInt64} (h : call.Rewrites c nowMs) :
    call.prune c≠none := by
  obtain ⟨he,hc⟩ := h
  cases hc with
  | inl hc =>
    subst hc
    rw [Call.prune,if_neg he]
    exact Option.some_ne_none _
  | inr hc =>
    obtain ⟨id,expiryMs,rfl,hh,hf⟩ := hc
    have hh' : ¬(id∈c.consumed ∨ id∈c.published) := hh
    have hf' : maxLive ≤ c.consumed.keys.length := hf
    rw [Call.prune,if_neg hh',if_pos hf',if_neg he]
    exact Option.some_ne_none _

/-- A call that does not prune changes nothing or appends its record. -/
theorem run_of_no_prune (io : Io) (s : Store) (call : Call) (h : call.prune s.ledger.toCaches=none) :
    (∃res,call.run io s=(res,s) ∧ (res=.ok () → ∀r,call.record=some r → s.ledger.Holds r)) ∨
    ∃r,call.Writes s.ledger.toCaches r ∧ call.run io s=s.logRecord io r := by
  obtain hq|⟨nowMs,res,hrw,_⟩|hw|⟨nowMs,r,hrw,_⟩ := run_cases io s call
  · exact .inl hq
  · exact absurd h (prune_of_rewrites hrw)
  · exact .inr hw
  · exact absurd h (prune_of_rewrites hrw.1)

/-- Nothing is acknowledged of a call that has changed nothing. -/
theorem appended_none (c : Caches) (call : Call) (res : Except LedgerError Unit)
    (h : res=.ok () → ∀r,call.record=some r → c.Holds r) : call.appended c res=none := by
  cases res with
  | error e => rfl
  | ok u =>
    rw [Call.appended,Option.filter_eq_none_iff]
    intro r hr
    have hh := h rfl r hr
    simpa using hh

theorem run_closed (io : Io) (s : Store) (call : Call) (hc : call.prune s.ledger.toCaches=none)
    (h : s.ledger.file=none) :
    (call.run io s).2=s ∧ call.appended s.ledger.toCaches (call.run io s).1=none := by
  obtain ⟨res,heq,hok⟩|⟨r,_,heq⟩ := run_of_no_prune io s call hc
  · rw [heq]
    exact ⟨rfl,appended_none _ _ _ hok⟩
  · rw [heq,logRecord_closed io s r h]
    exact ⟨rfl,rfl⟩

/-- The process and the handle it has after a step, with what the step does to path and locks. -/
def Stepped (s : Processes ι) (p : ι) (s' : Processes ι) : Prop :=
  ∃pr : Proc,s'.procs=Function.update s.procs p pr ∧ (pr.fd=none → pr.ledger.file=none) ∧ Moves s p s' pr

theorem stepped_self {s : Processes ι} (hs : Sole s) (p : ι) : Stepped s p s :=
  ⟨s.procs p,(Function.update_eq_self p s.procs).symm,hs.handle p,.stays rfl rfl (fun h => ⟨h,rfl⟩)⟩

theorem stepped_put {s : Processes ι} (p : ι) (st : Store) (hh : (s.procs p).fd≠none → (s.procs p).Holds)
    (hc : (s.procs p).fd=none → st.ledger.file=none) : Stepped s p (s.put p st) :=
  ⟨{ s.procs p with ledger := st.ledger,phase := .ready },rfl,hc,.stays rfl rfl (fun h => ⟨hh h,rfl⟩)⟩

theorem Stepped.ack {s s' : Processes ι} {p : ι} (h : Stepped s p s') (r : Option Record) : Stepped s p (s'.ack r) := by
  obtain ⟨pr,hp,hc,hm⟩ := h
  refine ⟨pr,hp,hc,?_⟩
  cases hm with
  | stays path locks holds => exact .stays path locks holds
  | leaves path locks out => exact .leaves path locks out
  | takes free path locks fd => exact .takes free path locks fd
  | renames held locks out => exact .renames held locks out

/-- A process that is done with its call, at the path it was at. -/
theorem stepped_idle {s s₁ : Processes ι} (hs : Sole s) (p : ι) (hh : (s.procs p).Holds) (hpath : s₁.path=s.path)
    (hlocks : s₁.locks=s.locks) (hprocs : s₁.procs=s.procs) : Stepped s p (s₁.idle p) := by
  refine ⟨{ s.procs p with phase := .ready },?_,hs.handle p,.stays hpath hlocks (fun _ => ⟨hh,rfl⟩)⟩
  rw [Processes.idle,Processes.set,hprocs]

theorem stepped_none {s s₁ : Processes ι} (p : ι) (hpath : s₁.path=s.path)
    (hlocks : s₁.locks=s.locks ∨ s₁.locks=(s.unlock p).locks) (hprocs : s₁.procs=s.procs) :
    Stepped s p (s₁.set p Proc.none) := by
  refine ⟨Proc.none,?_,fun _ => rfl,?_⟩
  · rw [Processes.set,hprocs]
  · cases hlocks with
    | inl h => exact .stays hpath h (fun h => h.elim)
    | inr h => exact .leaves hpath h (fun h => h)

omit [DecidableEq ι] in
/-- A lock that is taken was nobody's. -/
theorem free_of_taken {s : Processes ι} {n : Nat} {ok : Bool} (h : ¬(!ok || (s.locks n).isSome)=true) : s.locks n=none := by
  rw [← Option.not_isSome_iff_eq_none]
  intro hl
  exact h (by simp [hl])

theorem stepped_lock {s : Processes ι} {p : ι} {n : Nat} {pr : Proc} (hn : s.locks n=none) (hpath : n=s.path)
    (hfd : pr.fd=some n) : Stepped s p ((s.lock p n).set p pr) := by
  subst hpath
  refine ⟨pr,rfl,fun h => ?_,.takes hn rfl rfl hfd⟩
  rw [h] at hfd
  cases hfd

theorem stepped_go {s : Processes ι} (hs : Sole s) (io : Io) (p : ι) (ho : Orderly s (p,io,.go)) :
    Stepped s p (s.go io p) := by
  have hlocks := fun n => ho.locks n rfl
  have hheld : (s.procs p).Holds → (s.procs p).fd≠none := by
    intro hh hn
    rw [(hs.held p hh).1] at hn
    cases hn
  dsimp only at hlocks
  rw [Processes.go]
  dsimp only
  cases hph : (s.procs p).phase with
  | idle => exact stepped_self hs p
  | ready => exact stepped_self hs p
  | opening =>
    cases hfd : (s.procs p).fd with
    | none => exact stepped_self hs p
    | some n =>
      dsimp only
      split
      · exact stepped_none p rfl (.inl rfl) rfl
      · rename_i hfree
        have hn := free_of_taken hfree
        exact stepped_lock hn (hlocks n hfd hn (.inl hph)) rfl
  | cleaning =>
    dsimp only
    have hh : (s.procs p).Holds := by rw [Proc.Holds,hph]; trivial
    split
    · exact stepped_none p rfl (.inr rfl) rfl
    · exact ⟨_,rfl,fun h => absurd h (hheld hh),.stays rfl rfl (fun _ => ⟨hh,rfl⟩)⟩
  | creating P =>
    dsimp only
    have hh : (s.procs p).Holds := by rw [Proc.Holds,hph]; trivial
    split
    · exact stepped_idle hs p hh rfl rfl rfl
    · exact ⟨_,rfl,hs.handle p,.stays rfl rfl (fun _ => ⟨hh,rfl⟩)⟩
  | writing P t =>
    dsimp only
    have hh : (s.procs p).Holds := by rw [Proc.Holds,hph]; trivial
    cases io.writeTemp with
    | some k => exact stepped_idle hs p hh rfl rfl rfl
    | none => exact ⟨_,rfl,hs.handle p,.stays rfl rfl (fun _ => ⟨hh,rfl⟩)⟩
  | replacing P =>
    dsimp only
    have hh : (s.procs p).Holds := by rw [Proc.Holds,hph]; trivial
    cases s.temp with
    | none => exact stepped_idle hs p hh rfl rfl rfl
    | some t =>
      dsimp only
      split
      · exact stepped_idle hs p hh rfl rfl rfl
      · exact ⟨_,rfl,hs.handle p,.renames hh rfl (fun h => h)⟩
  | closing P => exact ⟨_,rfl,fun _ => rfl,.leaves rfl rfl (fun h => h)⟩
  | reopening P =>
    dsimp only
    split
    · exact ⟨_,rfl,fun _ => rfl,.stays rfl rfl (fun h => absurd rfl h)⟩
    · exact ⟨_,rfl,fun h => (by cases h),.stays rfl rfl (fun h => h.elim)⟩
  | relocking P =>
    cases hfd : (s.procs p).fd with
    | none => exact stepped_self hs p
    | some n =>
      dsimp only
      split
      · exact ⟨_,rfl,fun _ => rfl,.stays rfl rfl (fun h => absurd rfl h)⟩
      · rename_i hfree
        have hn := free_of_taken hfree
        exact stepped_lock hn (hlocks n hfd hn (.inr ⟨P,hph⟩)) rfl
  | resuming r =>
    dsimp only
    have hh : (s.procs p).Holds := by rw [Proc.Holds,hph]; trivial
    split
    · exact stepped_idle hs p hh rfl rfl rfl
    · have hput : Stepped s p (s.put p ((s.store p).logRecord io r).2) :=
        stepped_put p _ (fun _ => hh) (fun h => absurd h (hheld hh))
      generalize (s.store p).logRecord io r=res at hput
      obtain ⟨res,st⟩ := res
      cases res with
      | ok u => exact hput.ack (some r)
      | error e => exact hput

theorem stepped_call {s : Processes ι} (hs : Sole s) (io : Io) (p : ι) (c : Call) (hph : (s.procs p).phase=.ready)
    (ho : Orderly s (p,io,.call c)) : Stepped s p (s.call io p c) := by
  have hprunes := ho.prunes c rfl hph
  dsimp only at hprunes
  have hh : (s.procs p).fd≠none → (s.procs p).Holds := by
    intro hfd
    rw [Proc.Holds,hph]
    exact hfd
  rw [Processes.call]
  dsimp only
  cases hp : c.prune (s.procs p).ledger.toCaches with
  | some now =>
    have hheld := hh (hprunes (by rw [hp]; exact Option.some_ne_none _))
    exact ⟨_,rfl,hs.handle p,.stays rfl rfl (fun _ => ⟨hheld,rfl⟩)⟩
  | none =>
    have hput : Stepped s p (s.put p (c.run io (s.store p)).2) := by
      refine stepped_put p _ hh (fun h => ?_)
      rw [(run_closed io (s.store p) c hp (hs.handle p h)).1]
      exact hs.handle p h
    exact hput.ack _

theorem stepped {s : Processes ι} (hs : Sole s) (x : ι × Io × Action) (ho : Orderly s x) :
    Stepped s x.1 (s.step x) := by
  obtain ⟨p,io,a⟩ := x
  have hh : (s.procs p).phase=.ready → (s.procs p).fd≠none → (s.procs p).Holds := by
    intro hph hfd
    rw [Proc.Holds,hph]
    exact hfd
  cases a with
  | go => exact stepped_go hs io p ho
  | quit => exact stepped_none p rfl (.inr rfl) rfl
  | start =>
    rw [Processes.step]
    dsimp only
    split
    · exact ⟨_,rfl,fun h => (by cases h),.stays rfl rfl (fun h => h.elim)⟩
    · exact stepped_self hs p
  | recover =>
    rw [Processes.step]
    dsimp only
    split
    · rename_i hph
      refine stepped_put p _ (hh hph) (fun h => ?_)
      rw [recover_closed io (s.store p) (hs.handle p h)]
      exact hs.handle p h
    · exact stepped_self hs p
  | call c =>
    rw [Processes.step]
    dsimp only
    split
    · rename_i hph
      exact stepped_call hs io p c hph ho
    · exact stepped_self hs p
  | close =>
    rw [Processes.step]
    dsimp only
    split
    · rename_i hph
      refine ⟨_,rfl,fun _ => rfl,.leaves rfl rfl ?_⟩
      rw [Proc.Holds,hph]
      exact fun h => h rfl
    · exact stepped_self hs p

/-- A step in order keeps one holder of the file at the path. -/
theorem sole_step (s : Processes ι) (x : ι × Io × Action) (ho : Orderly s x) (hs : Sole s) : Sole (s.step x) := by
  obtain ⟨pr,hp,hc,hm⟩ := stepped hs x ho
  exact sole_of_moves hs hp hc hm

omit [DecidableEq ι] in
theorem sole_boot (log : Bytes) (stale : Option Bytes) : Sole (Processes.boot log stale : Processes ι) :=
  ⟨fun _ h => h.elim,fun _ _ => rfl⟩

omit [DecidableEq ι] in
/-- A process that can write has the file at the path, and its lock. -/
theorem Sole.writable {s : Processes ι} (hs : Sole s) (p : ι) (h : s.Writable p) :
    (s.procs p).fd=some s.path ∧ s.locks s.path=some p := by
  obtain ⟨hph,io,rec,hok⟩ := h
  apply hs.held p
  rw [Proc.Holds,hph]
  intro hfd
  have hf : (s.store p).ledger.file=none := hs.handle p hfd
  rw [Store.append,hf] at hok
  split at hok <;> cases hok

omit [DecidableEq ι] in
theorem Sole.singleWriter {s : Processes ι} (hs : Sole s) : s.SingleWriter := by
  intro p q hp hq
  have hlock := (hs.writable p hp).2
  rw [(hs.writable q hq).2] at hlock
  exact (Option.some.inj hlock).symm

/-- The caches say what the record says. -/
def Caches.Says (c : Caches) : Record → Prop
  | .commit id expiry => c.consumed.lookup id=some expiry
  | .published id => id∈c.published
  | .revoke pk certExpiry => c.revoked.lookup pk=some certExpiry
  | .firstReceipt id time => c.firstReceipts.lookup id=some time

/-- The step appends the record, if it finds its handle open. -/
def Processes.Appends (s : Processes ι) (x : ι × Io × Action) (r : Record) : Prop :=
  (x.2.2=.go ∧ (s.procs x.1).phase=.resuming r) ∨
    ∃c,x.2.2=.call c ∧ (s.procs x.1).phase=.ready ∧ c.Writes (s.procs x.1).ledger.toCaches r

/-- The step is a prune that rewrites the file. -/
def Processes.Prunes (s : Processes ι) (x : ι × Io × Action) (nowMs : UInt64) : Prop :=
  ∃c next,x.2.2=.call c ∧ (s.procs x.1).phase=.ready ∧
    c.prune (s.procs x.1).ledger.toCaches=some (nowMs,next)

/-- Besides, an append starts at the end of a file of whole records, and a prune knows every
acknowledged record that has not expired and finds no tombstone among them. -/
structure Careful (s : Processes ι) (x : ι × Io × Action) : Prop extends Orderly s x where
  appends : ∀r n pos,s.Appends x r → (s.procs x.1).fd=some n → (s.procs x.1).ledger.file=some pos →
    pos=(s.inodes n).length ∧ ∃rs,s.inodes n=ledgerFormat.encode rs
  knows : ∀nowMs,s.Prunes x nowMs → ∀r∈s.acked,r.expiredAt nowMs=false → (s.procs x.1).ledger.Says r
  tombstones : ∀nowMs,s.Prunes x nowMs → ∀id,Record.published id∉s.acked

/-- The image that a process is about to put in the place of the file. -/
def Phase.image : Phase → Option Bytes
  | .creating P => some P.image
  | .writing P _ => some P.image
  | .replacing P => some P.image
  | _ => none

/-- The acknowledged records are in the file, and in an image that is to replace it; the
temporary file is the one that the prune writes. -/
structure Safe (s : Processes ι) : Prop where
  kept : s.Kept
  temp : ∀t,s.temp=some t → t≠s.path ∧ t < s.fresh
  fresh : s.path < s.fresh
  image : ∀p image,(s.procs p).phase.image=some image → ∀r∈s.acked,r∈ledgerFormat.records image
  writing : ∀p P t,(s.procs p).phase=.writing P t → s.temp=some t
  replacing : ∀p P,(s.procs p).phase=.replacing P → ∃t,s.temp=some t ∧ s.inodes t=P.image

/-- What is said of an image that a process has in hand. -/
structure InHand (s : Processes ι) (phase : Phase) : Prop where
  image : ∀image,phase.image=some image → ∀r∈s.acked,r∈ledgerFormat.records image
  writing : ∀P t,phase=.writing P t → s.temp=some t
  replacing : ∀P,phase=.replacing P → ∃t,s.temp=some t ∧ s.inodes t=P.image

omit [DecidableEq ι] in
theorem inHand_none {s : Processes ι} {phase : Phase} (h : phase.image=none) : InHand s phase where
  image image hi := by rw [h] at hi; cases hi
  writing P t ht := by rw [ht] at h; cases h
  replacing P hp := by rw [hp] at h; cases h

omit [DecidableEq ι] in
theorem holds_of_image {pr : Proc} {image : Bytes} (h : pr.phase.image=some image) : pr.Holds := by
  rw [Proc.Holds]
  cases hph : pr.phase <;> rw [hph] at h <;> trivial

/-- A step that leaves files, path and acknowledged records alone. -/
structure Untouched (s s' : Processes ι) : Prop where
  inodes : s'.inodes=s.inodes
  path : s'.path=s.path
  temp : s'.temp=s.temp
  fresh : s'.fresh=s.fresh
  acked : s'.acked=s.acked

/-- A step of one process, for what the others have in hand. -/
theorem safe_of_inHand {s s' : Processes ι} {p : ι} {pr : Proc} (hp : s'.procs=Function.update s.procs p pr)
    (hkept : s'.Kept) (htemp : ∀t,s'.temp=some t → t≠s'.path ∧ t < s'.fresh) (hfresh : s'.path < s'.fresh)
    (hin : InHand s' pr.phase) (hrest : ∀q,q≠p → InHand s' (s.procs q).phase) : Safe s' := by
  have hall : ∀q,InHand s' (s'.procs q).phase := by
    intro q
    rw [hp]
    by_cases hqp : q=p
    · subst hqp
      rw [Function.update_self]
      exact hin
    · rw [Function.update_of_ne hqp]
      exact hrest q hqp
  exact ⟨hkept,htemp,hfresh,fun q => (hall q).image,fun q => (hall q).writing,fun q => (hall q).replacing⟩

theorem safe_untouched {s s' : Processes ι} {p : ι} {pr : Proc} (hs : Safe s) (hu : Untouched s s')
    (hp : s'.procs=Function.update s.procs p pr) (hi : pr.phase.image=none) : Safe s' := by
  refine safe_of_inHand hp ?_ ?_ ?_ (inHand_none hi) ?_
  · rw [Processes.Kept,hu.acked,hu.inodes,hu.path]
    exact hs.kept
  · rw [hu.temp,hu.path,hu.fresh]
    exact hs.temp
  · rw [hu.path,hu.fresh]
    exact hs.fresh
  · intro q _
    constructor
    · rw [hu.acked]
      exact hs.image q
    · rw [hu.temp]
      exact hs.writing q
    · rw [hu.temp,hu.inodes]
      exact hs.replacing q

/-- While a process holds the file at the path, no other has an image in hand. -/
theorem safe_of_holder {s s' : Processes ι} {p : ι} {pr : Proc} (hs : Sole s) (hh : (s.procs p).Holds)
    (hp : s'.procs=Function.update s.procs p pr) (hkept : s'.Kept)
    (htemp : ∀t,s'.temp=some t → t≠s'.path ∧ t < s'.fresh) (hfresh : s'.path < s'.fresh)
    (hin : InHand s' pr.phase) : Safe s' := by
  refine safe_of_inHand hp hkept htemp hfresh hin ?_
  intro q hqp
  apply inHand_none
  cases hq : (s.procs q).phase.image with
  | none => rfl
  | some image =>
    have hlock := (hs.held q (holds_of_image hq)).2
    rw [(hs.held p hh).2] at hlock
    exact absurd (Option.some.inj hlock).symm hqp

/-- A step that leaves the process without an image, and the files as they are. -/
def LeavesFiles (s : Processes ι) (p : ι) (s' : Processes ι) : Prop :=
  ∃pr : Proc,s'.procs=Function.update s.procs p pr ∧ pr.phase.image=none ∧ Untouched s s'

theorem leaves_self {s : Processes ι} {p : ι} (h : ¬(s.procs p).Holds) : LeavesFiles s p s := by
  refine ⟨s.procs p,(Function.update_eq_self p s.procs).symm,?_,rfl,rfl,rfl,rfl,rfl⟩
  cases hi : (s.procs p).phase.image with
  | none => rfl
  | some image => exact absurd (holds_of_image hi) h

theorem put_closed {s : Processes ι} {p : ι} (st : Store) (h : (s.procs p).fd=none) : LeavesFiles s p (s.put p st) := by
  refine ⟨{ s.procs p with ledger := st.ledger,phase := .ready },rfl,rfl,?_,rfl,rfl,rfl,rfl⟩
  rw [Processes.put,h]
  rfl

omit [DecidableEq ι] in
theorem closed_of_ready {s : Processes ι} {p : ι} (hn : ¬(s.procs p).Holds) (hph : (s.procs p).phase=.ready) :
    (s.procs p).fd=none := by
  by_contra hfd
  rw [Proc.Holds,hph] at hn
  exact hn hfd

/-- A call without a handle writes nothing. -/
theorem outside_call {s : Processes ι} (hs : Sole s) (io : Io) {p : ι} (c : Call) (hfd : (s.procs p).fd=none)
    (hp : c.prune (s.procs p).ledger.toCaches=none) : LeavesFiles s p (s.call io p c) := by
  rw [Processes.call]
  dsimp only
  rw [hp]
  obtain ⟨hrun,happ⟩ := run_closed io (s.store p) c hp (hs.handle p hfd)
  obtain ⟨pr,hprocs,hi,hu⟩ := put_closed (c.run io (s.store p)).2 hfd
  have happ' : c.appended (s.procs p).ledger.toCaches (c.run io (s.store p)).1=none := happ
  generalize c.run io (s.store p)=r at hprocs hu happ'
  obtain ⟨res,st⟩ := r
  dsimp only at happ' ⊢
  rw [happ']
  exact ⟨pr,hprocs,hi,hu.inodes,hu.path,hu.temp,hu.fresh,(List.append_nil _).trans hu.acked⟩

theorem outside_go {s : Processes ι} (io : Io) {p : ι} (hn : ¬(s.procs p).Holds) : LeavesFiles s p (s.go io p) := by
  have hself := @leaves_self ι _ s p hn
  rw [Processes.go]
  dsimp only
  rw [Proc.Holds] at hn
  cases hph : (s.procs p).phase with
  | idle => exact hself
  | ready => exact hself
  | opening =>
    cases hfd : (s.procs p).fd with
    | none => exact hself
    | some n =>
      dsimp only
      split
      · exact ⟨_,rfl,rfl,rfl,rfl,rfl,rfl,rfl⟩
      · exact ⟨_,rfl,rfl,rfl,rfl,rfl,rfl,rfl⟩
  | cleaning => exact absurd trivial (by rw [hph] at hn; exact hn)
  | creating P => exact absurd trivial (by rw [hph] at hn; exact hn)
  | writing P t => exact absurd trivial (by rw [hph] at hn; exact hn)
  | replacing P => exact absurd trivial (by rw [hph] at hn; exact hn)
  | resuming r => exact absurd trivial (by rw [hph] at hn; exact hn)
  | closing P => exact ⟨_,rfl,rfl,rfl,rfl,rfl,rfl,rfl⟩
  | reopening P =>
    dsimp only
    split
    · exact ⟨_,rfl,rfl,rfl,rfl,rfl,rfl,rfl⟩
    · exact ⟨_,rfl,rfl,rfl,rfl,rfl,rfl,rfl⟩
  | relocking P =>
    cases hfd : (s.procs p).fd with
    | none => exact hself
    | some n =>
      dsimp only
      split
      · exact ⟨_,rfl,rfl,rfl,rfl,rfl,rfl,rfl⟩
      · refine ⟨_,rfl,?_,rfl,rfl,rfl,rfl,rfl⟩
        cases P.next <;> rfl

/-- A process that does not hold the file at the path leaves the files as they are. -/
theorem outside_step {s : Processes ι} (hs : Sole s) (x : ι × Io × Action) (ho : Orderly s x)
    (hn : ¬(s.procs x.1).Holds) : LeavesFiles s x.1 (s.step x) := by
  obtain ⟨p,io,a⟩ := x
  dsimp only at hn
  have hself := @leaves_self ι _ s p hn
  cases a with
  | quit => exact ⟨Proc.none,rfl,rfl,rfl,rfl,rfl,rfl,rfl⟩
  | start =>
    rw [Processes.step]
    dsimp only
    split
    · exact ⟨_,rfl,rfl,rfl,rfl,rfl,rfl,rfl⟩
    · exact hself
  | recover =>
    rw [Processes.step]
    dsimp only
    split
    · rename_i hph
      exact put_closed _ (closed_of_ready hn hph)
    · exact hself
  | close =>
    rw [Processes.step]
    dsimp only
    split
    · rename_i hph
      exact ⟨_,rfl,by rw [hph]; rfl,rfl,rfl,rfl,rfl,rfl⟩
    · exact hself
  | call c =>
    rw [Processes.step]
    dsimp only
    split
    · rename_i hph
      have hfd := closed_of_ready hn hph
      cases hp : c.prune (s.procs p).ledger.toCaches with
      | some now => exact absurd hfd (ho.prunes c rfl hph (by rw [hp]; exact Option.some_ne_none _))
      | none => exact outside_call hs io c hfd hp
    · exact hself
  | go => exact outside_go io hn

theorem records_encode_nil (rs : List Record) : ledgerFormat.records (ledgerFormat.encode rs)=rs := by
  have h := ledgerFormat.records_encode rs [] ledgerFormat.torn_nil
  rwa [List.append_nil] at h

/-- An append at the end of whole records keeps what is there, however far it gets. -/
theorem records_logRecord (io : Io) (s : Store) (r : Record)
    (h : ∀pos,s.ledger.file=some pos → pos=s.disk.log.length ∧ ∃rs,s.disk.log=ledgerFormat.encode rs) :
    (∀q∈ledgerFormat.records s.disk.log,q∈ledgerFormat.records (s.logRecord io r).2.disk.log) ∧
      ((s.logRecord io r).1=.ok () → r∈ledgerFormat.records (s.logRecord io r).2.disk.log) := by
  obtain ⟨heq,_⟩|⟨pos,put,_,hf,heq,_⟩|⟨pos,_,hf,_,heq⟩ := logRecord_cases io s r
  · rw [heq]
    exact ⟨fun _ hq => hq,fun hok => (by cases hok)⟩
  · obtain ⟨hpos,rs,hlog⟩ := h pos hf
    rw [heq]
    refine ⟨fun q hq => ?_,fun hok => (by cases hok)⟩
    change q∈ledgerFormat.records (writeAt 0 s.disk.log pos put)
    rw [hlog,records_encode_nil] at hq
    rw [hpos,writeAt_end,hlog,ledgerFormat.records_append]
    exact List.mem_append_left _ hq
  · obtain ⟨hpos,rs,hlog⟩ := h pos hf
    have hnew : ledgerFormat.records (writeAt 0 s.disk.log pos r.bytes)=rs++[r] := by
      rw [hpos,writeAt_end,hlog]
      have hcat : ledgerFormat.encode rs++r.bytes=ledgerFormat.encode (rs++[r]) := (ledgerFormat.encode_concat rs r).symm
      rw [hcat,records_encode_nil]
    rw [heq]
    change (∀q∈ledgerFormat.records s.disk.log,q∈ledgerFormat.records (writeAt 0 s.disk.log pos r.bytes)) ∧
      (_ → r∈ledgerFormat.records (writeAt 0 s.disk.log pos r.bytes))
    rw [hnew,hlog,records_encode_nil]
    exact ⟨fun q hq => List.mem_append_left _ hq,fun _ => List.mem_append_right _ (List.mem_singleton.mpr rfl)⟩

/-- A record that the caches say and that is no tombstone is in the image. -/
theorem mem_imageRecords (io : Io) (c : Caches) (nowMs : UInt64) (r : Record) (hr : c.Says r)
    (hlive : r.expiredAt nowMs=false) (ht : ∀id,r≠.published id) : r∈(c.dropExpired nowMs).imageRecords io := by
  have hmem : ∀{n : Nat} (m : TimeMap n) (k : FixedBytes n) (v : UInt64),m.lookup k=some v → ⟨k,v⟩∈io.order m :=
    fun m k v h => (io.orderPerm m).mem_iff.mpr (AList.mem_lookup_iff.mp h)
  rw [Caches.imageRecords,List.mem_append,List.mem_append,List.mem_map,List.mem_map,List.mem_map]
  cases r with
  | commit id expiry =>
    have hl : (c.dropExpired nowMs).consumed.lookup id=some expiry :=
      (lookup_dropExpired c nowMs id expiry).mpr ⟨hr,UInt64.not_le.mp (of_decide_eq_false hlive)⟩
    exact .inl (.inl ⟨_,hmem _ _ _ hl,rfl⟩)
  | published id => exact absurd rfl (ht id)
  | revoke pk certExpiry => exact .inl (.inr ⟨_,hmem _ _ _ hr,rfl⟩)
  | firstReceipt id time => exact .inr ⟨_,hmem _ _ _ hr,rfl⟩

theorem recover_disk (io : Io) (s : Store) : (Store.recover io s).2.disk=s.disk := by
  rw [Store.recover]
  cases s.ledger.file with
  | none => rfl
  | some pos =>
    dsimp only
    split
    · rfl
    cases io.read with
    | some k => rfl
    | none =>
      dsimp only
      generalize Caches.replayLoop s.disk.log.length s.disk.log Caches.empty=r
      obtain ⟨res,c⟩ := r
      cases res <;> rfl

omit [DecidableEq ι] in
theorem ack_none (s : Processes ι) : s.ack none=s := by
  rw [Processes.ack,Option.toList_none,List.append_nil]

omit [DecidableEq ι] in
theorem store_log {s : Processes ι} {p : ι} (h : (s.procs p).fd=some s.path) :
    (s.store p).disk.log=s.inodes s.path := by
  rw [Processes.store,h]
  rfl

/-- What a holder does to the file at the path, when it has its handle back. -/
theorem safe_put {s : Processes ι} {p : ι} (hs : Sole s) (hk : Safe s) (hh : (s.procs p).Holds) (st : Store)
    (r : Option Record)
    (hlog : (∀q∈ledgerFormat.records (s.store p).disk.log,q∈ledgerFormat.records st.disk.log) ∧
      ∀q∈r,q∈ledgerFormat.records st.disk.log) : Safe ((s.put p st).ack r) := by
  obtain ⟨hfd,-⟩ := hs.held p hh
  have hstore := store_log hfd
  have hfile : ((s.put p st).ack r).inodes s.path=st.disk.log := by
    rw [Processes.put,hfd]
    exact Function.update_self _ _ _
  rw [hstore] at hlog
  refine safe_of_holder hs hh rfl ?_ hk.temp hk.fresh (inHand_none rfl)
  intro q hq
  change q∈ledgerFormat.records (((s.put p st).ack r).inodes s.path)
  rw [hfile]
  cases List.mem_append.mp hq with
  | inl hold => exact hlog.1 q (hk.kept q hold)
  | inr hnew => exact hlog.2 q (Option.mem_toList.mp hnew)

omit [DecidableEq ι] in
/-- A write to another inode than the path's. -/
theorem keeps_other {s s' : Processes ι} {t : Nat} {bytes : Bytes} (hk : s.Kept) (ht : t≠s.path)
    (hi : s'.inodes=Function.update s.inodes t bytes) (hpath : s'.path=s.path) (hacked : s'.acked=s.acked) :
    s'.Kept := by
  rw [Processes.Kept,hacked,hi,hpath,Function.update_of_ne ht.symm]
  exact hk

theorem safe_idle {s s₁ : Processes ι} {p : ι} (hk : Safe s) (hprocs : s₁.procs=s.procs) (hu : Untouched s s₁) :
    Safe (s₁.idle p) := by
  refine @safe_untouched _ _ s (s₁.idle p) p { s.procs p with phase := .ready } hk
    ⟨hu.inodes,hu.path,hu.temp,hu.fresh,hu.acked⟩ ?_ rfl
  rw [Processes.idle,Processes.set,hprocs]

omit [DecidableEq ι] in
/-- The temporary file of a prune is another one than the file at the path. -/
theorem Safe.temp_ne_path {s : Processes ι} (hk : Safe s) : s.temp.getD s.fresh≠s.path := by
  cases ht : s.temp with
  | none => exact Nat.ne_of_gt hk.fresh
  | some t => exact (hk.temp t ht).1

theorem holder_go {s : Processes ι} (hs : Sole s) (hk : Safe s) (io : Io) (p : ι) (hc : Careful s (p,io,.go))
    (hh : (s.procs p).Holds) : Safe (s.go io p) := by
  obtain ⟨hfd,hlock⟩ := hs.held p hh
  have hself : Untouched s s := ⟨rfl,rfl,rfl,rfl,rfl⟩
  rw [Processes.go]
  dsimp only
  cases hph : (s.procs p).phase with
  | idle => exact hk
  | ready => exact hk
  | opening => rw [Proc.Holds,hph] at hh; exact hh.elim
  | closing P => rw [Proc.Holds,hph] at hh; exact hh.elim
  | reopening P => rw [Proc.Holds,hph] at hh; exact hh.elim
  | relocking P => rw [Proc.Holds,hph] at hh; exact hh.elim
  | cleaning =>
    dsimp only
    split
    · exact safe_untouched hk ⟨rfl,rfl,rfl,rfl,rfl⟩ rfl rfl
    · exact safe_of_holder hs hh rfl hk.kept (fun t ht => (by cases ht)) hk.fresh (inHand_none rfl)
  | creating P =>
    have himage := hk.image p P.image (by rw [hph]; rfl)
    dsimp only
    split
    · exact safe_idle hk rfl hself
    · have htemp := hk.temp_ne_path
      generalize s.temp.getD s.fresh=t at htemp
      have hlt : t < max s.fresh (t+1) := Nat.lt_of_lt_of_le (Nat.lt_succ_self t) (Nat.le_max_right _ _)
      refine safe_of_holder hs hh rfl ?_ ?_ (Nat.lt_of_lt_of_le hk.fresh (Nat.le_max_left _ _)) ⟨?_,?_,?_⟩
      · exact keeps_other hk.kept htemp rfl rfl rfl
      · intro t' ht'
        cases ht'
        exact ⟨htemp,hlt⟩
      · intro image hi
        cases hi
        exact himage
      · intro P' t' hw
        cases hw
        rfl
      · intro P' hw
        cases hw
  | writing P t =>
    have himage := hk.image p P.image (by rw [hph]; rfl)
    have ht := hk.writing p P t hph
    have htemp := (hk.temp t ht).1
    dsimp only
    cases io.writeTemp with
    | some k => exact safe_of_holder hs hh rfl (keeps_other hk.kept htemp rfl rfl rfl) hk.temp hk.fresh (inHand_none rfl)
    | none =>
      refine safe_of_holder hs hh rfl (keeps_other hk.kept htemp rfl rfl rfl) hk.temp hk.fresh ?_
      dsimp only
      split
      · refine ⟨?_,?_,?_⟩
        · intro image hi
          cases hi
          exact himage
        · intro P' t' hw
          cases hw
        · intro P' hw
          cases hw
          exact ⟨t,ht,Function.update_self _ _ _⟩
      · exact inHand_none rfl
  | replacing P =>
    have himage := hk.image p P.image (by rw [hph]; rfl)
    obtain ⟨t,ht,hfile⟩ := hk.replacing p P hph
    dsimp only
    rw [ht]
    dsimp only
    split
    · exact safe_idle hk rfl hself
    · refine safe_of_holder hs hh rfl ?_ (fun t ht => (by cases ht)) (hk.temp t ht).2 (inHand_none rfl)
      intro r hr
      change r∈ledgerFormat.records (s.inodes t)
      rw [hfile]
      exact himage r hr
  | resuming r =>
    dsimp only
    split
    · exact safe_idle hk rfl hself
    · have hrec := records_logRecord io (s.store p) r (by
        intro pos hpos
        rw [store_log hfd]
        exact hc.appends r s.path pos (.inl ⟨rfl,hph⟩) hfd hpos)
      generalize (s.store p).logRecord io r=res at hrec
      obtain ⟨res,st⟩ := res
      cases res with
      | ok u => exact safe_put hs hk hh st (some r) ⟨hrec.1,fun q hq => (by cases hq; exact hrec.2 rfl)⟩
      | error e =>
        have hput := safe_put hs hk hh st none ⟨hrec.1,fun q hq => (by cases hq)⟩
        rwa [ack_none] at hput

theorem holder_call {s : Processes ι} (hs : Sole s) (hk : Safe s) (io : Io) (p : ι) (c : Call)
    (hph : (s.procs p).phase=.ready) (hc : Careful s (p,io,.call c)) (hh : (s.procs p).Holds) :
    Safe (s.call io p c) := by
  obtain ⟨hfd,hlock⟩ := hs.held p hh
  rw [Processes.call]
  dsimp only
  cases hp : c.prune (s.procs p).ledger.toCaches with
  | some now =>
    obtain ⟨nowMs,next⟩ := now
    have hprunes : s.Prunes (p,io,.call c) nowMs := ⟨c,next,rfl,hph,hp⟩
    refine safe_of_holder hs hh rfl ?_ hk.temp hk.fresh ⟨?_,fun P t hw => (by cases hw),fun P hw => (by cases hw)⟩
    · intro r hr
      exact hk.kept r (List.mem_of_mem_filter hr)
    · intro image hi r hr
      cases hi
      obtain ⟨hacked,hlive⟩ := List.mem_filter.mp hr
      have hnot : r.expiredAt nowMs=false := by simpa using hlive
      have hlookup := hc.knows nowMs hprunes r hacked hnot
      have hmem := mem_imageRecords io (s.procs p).ledger.toCaches nowMs r hlookup hnot (fun id he =>
        hc.tombstones nowMs hprunes id (he ▸ hacked))
      have himage : ledgerFormat.records (((s.procs p).ledger.dropExpired nowMs).image io)=
          ((s.procs p).ledger.dropExpired nowMs).imageRecords io := records_encode_nil _
      dsimp only
      rw [himage]
      exact hmem
  | none =>
    dsimp only
    have hput := fun st r hlog => @safe_put ι _ s p hs hk hh st r hlog
    obtain ⟨res,heq,hok⟩|⟨r,hw,heq⟩ := run_of_no_prune io (s.store p) c hp
    · have hnone : c.appended (s.procs p).ledger.toCaches res=none := appended_none _ _ _ hok
      rw [heq]
      dsimp only
      rw [hnone]
      exact hput _ none ⟨fun q hq => hq,fun q hq => (by cases hq)⟩
    · have hrec := records_logRecord io (s.store p) r (by
        intro pos hpos
        rw [store_log hfd]
        exact hc.appends r s.path pos (.inr ⟨c,rfl,hph,hw⟩) hfd hpos)
      rw [heq]
      generalize (s.store p).logRecord io r=out at hrec
      obtain ⟨res,st⟩ := out
      refine hput st _ ⟨hrec.1,fun q hq => ?_⟩
      cases res with
      | error e => cases hq
      | ok u =>
        have happ : c.record=some q := (Option.filter_eq_some_iff.mp hq).1
        rw [hw.1] at happ
        cases happ
        exact hrec.2 rfl

/-- A careful step keeps the acknowledged records in the file at the path. -/
theorem safe_step (s : Processes ι) (x : ι × Io × Action) (hc : Careful s x) (hs : Sole s) (hk : Safe s) :
    Safe (s.step x) := by
  by_cases hh : (s.procs x.1).Holds
  · obtain ⟨p,io,a⟩ := x
    dsimp only at hh
    cases a with
    | go => exact holder_go hs hk io p hc hh
    | quit => exact safe_untouched hk ⟨rfl,rfl,rfl,rfl,rfl⟩ rfl rfl
    | start =>
      rw [Processes.step]
      split
      · exact safe_untouched hk ⟨rfl,rfl,rfl,rfl,rfl⟩ rfl rfl
      · exact hk
    | recover =>
      rw [Processes.step]
      split
      · have hput := @safe_put ι _ s p hs hk hh (Store.recover io (s.store p)).2 none
          ⟨fun q hq => by rw [recover_disk]; exact hq,fun q hq => (by cases hq)⟩
        rwa [ack_none] at hput
      · exact hk
    | call c =>
      rw [Processes.step]
      split
      · rename_i hph
        exact holder_call hs hk io p c hph hc hh
      · exact hk
    | close =>
      rw [Processes.step]
      split
      · rename_i hph
        exact safe_untouched hk ⟨rfl,rfl,rfl,rfl,rfl⟩ rfl (by rw [hph]; rfl)
      · exact hk
  · obtain ⟨pr,hp,hi,hu⟩ := outside_step hs x hc.toOrderly hh
    exact safe_untouched hk hu hp hi

omit [DecidableEq ι] in
theorem safe_boot (log : Bytes) (stale : Option Bytes) : Safe (Processes.boot log stale : Processes ι) where
  kept r hr := by cases hr
  temp t ht := by
    obtain ⟨b,-,hb⟩ := Option.map_eq_some_iff.mp ht
    subst hb
    exact ⟨Nat.one_ne_zero,Nat.one_lt_two⟩
  fresh := Nat.zero_lt_two
  image p image hi := by cases hi
  writing p P t hp := by cases hp
  replacing p P hp := by cases hp

/-- Processes that take the lock of the inode at the path only, and prune with an open
handle only, have one writer among them; when they append and prune with care as well,
every acknowledged record is in the file at the path. -/
theorem single_writer (log : Bytes) (stale : Option Bytes) (xs : List (ι × Io × Action)) :
    (Meets Processes.step Orderly (Processes.boot log stale) xs →
      Always Processes.step Processes.SingleWriter (Processes.boot log stale) xs) ∧
    (Meets Processes.step Careful (Processes.boot log stale) xs →
      Always Processes.step (fun s => s.SingleWriter ∧ s.Kept) (Processes.boot log stale) xs) := by
  constructor
  · intro h
    have hrun := always_of_meets sole_step _ xs h (sole_boot log stale)
    exact always_mono (fun _ hs => hs.singleWriter) _ xs hrun
  · intro h
    have hrun := @always_of_meets _ _ Processes.step Careful (fun s : Processes ι => Sole s ∧ Safe s)
      (fun s x hc hs => ⟨sole_step s x hc.toOrderly hs.1,safe_step s x hc hs.1 hs.2⟩) _ xs h
      ⟨sole_boot log stale,safe_boot log stale⟩
    exact always_mono (fun _ hs => ⟨hs.1.singleWriter,hs.2.kept⟩) _ xs hrun

/-- One process opens an empty ledger and commits a grant. -/
def openAndCommit (id : GrantId) : List (Bool × Io × Action) :=
  [(true,Io.good,.start),(true,Io.good,.go),(true,Io.good,.go),(true,Io.good,.call (.commitConsumed id 50 10))]

/-- A call finds its handle open at the end of the file at the path and knows the commits
that are acknowledged, and no other step locks another file or has a record to append. -/
def Smooth (s : Processes ι) (x : ι × Io × Action) : Bool :=
  let pr := s.procs x.1
  let log := s.inodes s.path
  match x.2.2 with
  | .call _ =>
    pr.fd==some s.path && pr.ledger.file==some log.length &&
      ledgerFormat.encode (ledgerFormat.records log)==log &&
      s.acked.all (fun r => match r with | .commit id expiry => pr.ledger.consumed.lookup id==some expiry | _ => false)
  | _ =>
    match pr.phase with
    | .opening => pr.fd.all (fun n => n==s.path)
    | .relocking _ => pr.fd.all (fun n => n==s.path)
    | .resuming _ => false
    | _ => true

omit [DecidableEq ι] in
theorem careful_of_smooth {s : Processes ι} {x : ι × Io × Action} (h : Smooth s x=true) : Careful s x := by
  obtain ⟨p,io,a⟩ := x
  cases a with
  | call c =>
    simp only [Smooth,Bool.and_eq_true,beq_iff_eq,List.all_eq_true] at h
    obtain ⟨⟨⟨hfd,hfile⟩,hlog⟩,hacked⟩ := h
    have hcommit : ∀r∈s.acked,∃id expiry,r=.commit id expiry ∧ (s.procs p).ledger.consumed.lookup id=some expiry := by
      intro r hr
      have hlookup := hacked r hr
      cases r with
      | commit id expiry => exact ⟨id,expiry,rfl,by simpa using hlookup⟩
      | published id => cases hlookup
      | revoke pk expiry => cases hlookup
      | firstReceipt id time => cases hlookup
    refine ⟨⟨fun n hgo => (by cases hgo),fun c _ _ _ => by rw [hfd]; exact Option.some_ne_none _⟩,?_,?_,?_⟩
    · intro r n pos _ hn hpos
      rw [hfd] at hn
      rw [hfile] at hpos
      cases hn
      cases hpos
      exact ⟨rfl,_,hlog.symm⟩
    · intro nowMs _ r hr _
      obtain ⟨id,expiry,rfl,hlookup⟩ := hcommit r hr
      exact hlookup
    · intro nowMs _ id hr
      obtain ⟨_,_,hne,_⟩ := hcommit _ hr
      cases hne
  | _ =>
    have hresume : ∀r,(s.procs p).phase≠.resuming r := by
      intro r hr
      simp only [Smooth,hr] at h
      cases h
    refine ⟨⟨?_,fun c hc => (by cases hc)⟩,?_,fun nowMs hp => ?_,fun nowMs hp => ?_⟩
    · intro n _ hn _ hphase
      dsimp only at hn hphase
      cases hphase with
      | inl hopening =>
        simp only [Smooth,hopening,hn,Option.all_some,beq_iff_eq] at h
        exact h
      | inr hrelocking =>
        obtain ⟨P,hP⟩ := hrelocking
        simp only [Smooth,hP,hn,Option.all_some,beq_iff_eq] at h
        exact h
    · intro r n pos ha
      cases ha with
      | inl ha => exact absurd ha.2 (hresume r)
      | inr ha =>
        obtain ⟨c,hc,_⟩ := ha
        cases hc
    · obtain ⟨c,next,hc,_⟩ := hp
      cases hc
    · obtain ⟨c,next,hc,_⟩ := hp
      cases hc

/-- Another process is refused before and in the middle of a prune that replaces the file,
and takes the ledger over when the first one has closed it. -/
def handover : List (Bool × Io × Action) :=
  openAndCommit (sampleId 1)++
    [(true,Io.good,.call (.commitConsumed (sampleId 2) 5000 20)),(false,Io.good,.start),(false,Io.good,.go),
      (true,Io.good,.call (.pruneExpired 100)),(true,Io.good,.go),(true,Io.good,.go),(true,Io.good,.go),
      (false,Io.good,.start),(true,Io.good,.go),(true,Io.good,.go),(true,Io.good,.go),(false,Io.good,.go),
      (true,Io.good,.recover),(true,Io.good,.call (.commitConsumed (sampleId 3) 6000 110)),(true,Io.good,.close),
      (false,Io.good,.start),(false,Io.good,.go),(false,Io.good,.go),(false,Io.good,.recover),
      (false,Io.good,.call (.commitConsumed (sampleId 4) 7000 120))]

theorem single_writer_sample :
    (handover.foldl Processes.step (Processes.boot [] none)).acked=
        [.commit (sampleId 2) 5000,.commit (sampleId 3) 6000,.commit (sampleId 4) 7000] ∧
      (handover.foldl Processes.step (Processes.boot [] none)).path≠(Processes.boot [] none : Processes Bool).path ∧
      Always Processes.step Processes.SingleWriter (Processes.boot [] none) handover ∧
      Always Processes.step (fun s => s.SingleWriter ∧ s.Kept) (Processes.boot [] none) handover := by
  have hsmooth : Meets Processes.step (fun s x => Smooth s x=true) (Processes.boot [] none) handover := by
    decide +kernel
  have hcareful : Meets Processes.step Careful (Processes.boot [] none) handover :=
    meets_mono (fun _ _ h => careful_of_smooth h) _ _ hsmooth
  have horderly : Meets Processes.step Orderly (Processes.boot [] none) handover :=
    meets_mono (fun _ _ h => h.toOrderly) _ _ hcareful
  exact ⟨by decide +kernel,by decide +kernel,(single_writer [] none _).1 horderly,
    (single_writer [] none _).2 hcareful⟩

/-- The second process opens the path before the first prunes, and takes the lock of the
replaced inode between the first one's closing and its opening again. -/
def lockedOrphan : List (Bool × Io × Action) :=
  openAndCommit (sampleId 1)++
    [(false,Io.good,.start),(true,Io.good,.call (.pruneExpired 100)),(true,Io.good,.go),(true,Io.good,.go),
      (true,Io.good,.go),(true,Io.good,.go),(false,Io.good,.go),(false,Io.good,.go),(true,Io.good,.go),
      (true,Io.good,.go),(false,Io.good,.recover),(false,Io.good,.call (.commitConsumed (sampleId 2) 5000 10))]

/-- Two processes can write, and a record that was acknowledged is not in the file at the path. -/
theorem locked_orphan_two_writers :
    ¬Always Processes.step Processes.SingleWriter (Processes.boot [] none) lockedOrphan ∧
      ¬Always Processes.step Processes.Kept (Processes.boot [] none) lockedOrphan := by
  constructor
  · intro h
    have hlast := always_foldl _ _ h
    have hwrite : ∀p,(lockedOrphan.foldl Processes.step (Processes.boot [] none)).Writable p := by
      intro p
      refine ⟨?_,Io.good,[],?_⟩ <;> cases p <;> decide +kernel
    exact absurd (hlast true false (hwrite true) (hwrite false)) (by decide)
  · intro h
    have hlast := always_foldl _ _ h
    have hacked : Record.commit (sampleId 2) 5000∈(lockedOrphan.foldl Processes.step (Processes.boot [] none)).acked := by
      decide +kernel
    have hempty : ledgerFormat.records ((lockedOrphan.foldl Processes.step (Processes.boot [] none)).inodes
        (lockedOrphan.foldl Processes.step (Processes.boot [] none)).path)=[] := by decide +kernel
    have hmem := hlast _ hacked
    rw [hempty] at hmem
    cases hmem

end Bolina.State
