import Bolina.Daemon.Deeds
import Bolina.Framework.DrainQueue

namespace Bolina

open Codec Intent State Transport Control Noise DrainQueue Controlled

/-- The most datagrams that a pass handles before the control plane has its turn. -/
def drainK : Nat := 64

/-- The buffer that a datagram is received into. -/
def recvSize : Nat := 4096

/-- A datagram in the queue of the socket, with what its handling finds outside. -/
structure Datagram where
  pkt : Bytes
  out : Outside

/-- What a pass of the loop finds outside: the flag, what comes in before each read and
whether the read fails, the clocks, and the sockets of the control plane. -/
structure PassIo where
  shutdown : Bool
  arrive : Nat → List Datagram
  fault : Nat → Bool
  sweepNow : UInt64
  accept : AcceptOutcome
  client : Nat → ClientIo
  controlNow : UInt64

/-- How the loop ends. -/
inductive Ended where
  | shutdown
  | recvFrom
  | control (e : ConnError)
  | panicked
  deriving DecidableEq

/-- The node with the clients of its control plane, if it has one, and the queue of its socket. -/
structure Loop where
  node : Controlled
  clients : Option (List Connection)
  queue : List Datagram

/-- What does not fit the buffer is cut off. -/
def Datagram.received (d : Datagram) : Tick := .input (.datagram (d.pkt.take recvSize) d.out)

section Machine

variable (S : Suite) (A : Aead) (keys : Keys)

/-- The reads of a pass, from the read `i` on: true when the last one found nothing. -/
def drain (io : PassIo) : Nat → Nat → List Datagram → Controlled → Except Ended (Bool × List Datagram × Controlled)
  | 0,_,queue,s => .ok (false,queue,s)
  | k+1,i,queue,s =>
    if io.fault i=true then .error .recvFrom
    else
      match queue++io.arrive i with
      | [] => .ok (true,[],s)
      | d::queue =>
        match s.step S A keys d.received with
        | none => .error .panicked
        | some s => drain io k (i+1) queue s

/-- One pass; true when the loop sleeps behind it. -/
def Loop.pass (l : Loop) (io : PassIo) : Except Ended (Bool × Loop) :=
  if io.shutdown=true then .error .shutdown
  else
    match drain S A keys io drainK 0 l.queue l.node with
    | .error e => .error e
    | .ok (empty,queue,s) =>
      let s := { s with endpoint := (s.endpoint.releaseStaleSlots io.sweepNow).2 }
      match l.clients with
      | none => .ok (empty,{ l with node := s,queue })
      | some clients =>
        match (s.plane clients io.controlNow).pollControl io.accept io.client with
        | none => .error .panicked
        | some (.error e) => .error (.control e)
        | some (.ok p) => .ok (empty,⟨s.behindPass p,some p.clients,queue⟩)

def Loop.runLoop (l : Loop) : List PassIo → Except Ended Loop
  | [] => .ok l
  | io::ios =>
    match l.pass S A keys io with
    | .error e => .error e
    | .ok (_,l) => l.runLoop ios

end Machine

/-- The part of the loop that the outside alone moves. -/
structure Plan where
  clients : Option (List Connection)
  queue : List Datagram

def Loop.plan (l : Loop) : Plan := ⟨l.clients,l.queue⟩

/-- A pass of the control plane that no client disturbs. -/
def Quiet (clients : List Connection) (accept : AcceptOutcome) (io : Nat → ClientIo) : Prop :=
  ∀p : Plane,p.clients=clients → Harmless p accept io

namespace Plan

/-- What a pass reads from the queue. -/
def drained (p : Plan) (io : PassIo) : Round Datagram := DrainQueue.round io.arrive drainK 0 p.queue

/-- The clients of a pass with what their sockets do. -/
def served (p : Plan) (io : PassIo) : List (Connection × ClientIo) :=
  match p.clients with
  | none => []
  | some clients => withIo (admitted clients io.accept) io.client

/-- What a pass does to the node: the datagrams it reads, one sweep, and the requests that are complete. -/
def ticks (p : Plan) (io : PassIo) : List Tick :=
  (p.drained io).taken.map Datagram.received++Tick.input (.sweep io.sweepNow)::
    (calls (p.served io)).map (fun buf => .request buf io.controlNow)

def next (p : Plan) (io : PassIo) : Plan := ⟨p.clients.map (fun _ => fates (p.served io)),(p.drained io).left⟩

/-- What the outside leaves undone in a pass that the loop survives. -/
structure Calm (p : Plan) (io : PassIo) : Prop where
  running : io.shutdown=false
  reads : ∀j < (p.drained io).reads,io.fault j=false
  control : ∀clients,p.clients=some clients → Quiet clients io.accept io.client

def ticksOf (p : Plan) : List PassIo → List Tick
  | [] => []
  | io::ios => p.ticks io++(p.next io).ticksOf ios

/-- What comes in along a loop: before each read that a pass makes, the datagrams that arrive there. -/
def arrivals (p : Plan) : List PassIo → List Datagram
  | [] => []
  | io::ios => (List.range (p.drained io).reads).flatMap io.arrive++(p.next io).arrivals ios

def CalmAll (p : Plan) : List PassIo → Prop
  | [] => True
  | io::ios => p.Calm io ∧ (p.next io).CalmAll ios

def after (p : Plan) (ios : List PassIo) : Plan := ios.foldl next p

end Plan

section Drain

variable {S : Suite} {A : Aead} {keys : Keys} {io : PassIo} {k i : Nat} {queue : List Datagram} {s : Controlled}

abbrev runs (S : Suite) (A : Aead) (keys : Keys) (s : Controlled) (xs : List Tick) : Option Controlled :=
  PartialRun.run (fun s x => s.step S A keys x) s xs

theorem run_eq (s : Controlled) (xs : List Tick) : s.run S A keys xs=runs S A keys s xs :=
  PartialRun.foldl_eq_run s xs

/-- The reads of a pass that goes on are a round of the queue, and a run of the node. -/
theorem drain_ok_iff (dry : Bool) (left : List Datagram) (s' : Controlled) :
    drain S A keys io k i queue s=.ok (dry,left,s') ↔
      (∀j < (DrainQueue.round io.arrive k i queue).reads,io.fault (i+j)=false) ∧
        runs S A keys s ((DrainQueue.round io.arrive k i queue).taken.map Datagram.received)=some s' ∧
        (DrainQueue.round io.arrive k i queue).dry=dry ∧ (DrainQueue.round io.arrive k i queue).left=left := by
  induction k generalizing i queue s with
  | zero =>
    simp only [drain,DrainQueue.round,Round.reads,Except.ok.injEq,Prod.mk.injEq]
    constructor
    · rintro ⟨rfl,rfl,rfl⟩
      simp
    · rintro ⟨-,hrun,rfl,rfl⟩
      simpa using hrun
  | succ k ih =>
    rw [drain]
    have hreads : ∀taken : List Datagram,∀dry : Bool,0 < taken.length+dry.toNat → io.fault i=true →
        ¬∀j < taken.length+dry.toNat,io.fault (i+j)=false := by
      intro taken dry hpos hf h
      have h0 := h 0 hpos
      rw [Nat.add_zero,hf] at h0
      cases h0
    cases hq : queue++io.arrive i with
    | nil =>
      rw [round_empty hq]
      by_cases hf : io.fault i=true
      · rw [if_pos hf]
        have hn := hreads [] true (by simp) hf
        constructor
        · intro h
          cases h
        · intro h
          exact absurd h.1 hn
      · rw [if_neg hf]
        simp only [Round.reads,Except.ok.injEq,Prod.mk.injEq]
        constructor
        · rintro ⟨rfl,rfl,rfl⟩
          refine ⟨?_,rfl,rfl,rfl⟩
          intro j hj
          have hj0 : j=0 := by simpa using hj
          rw [hj0]
          exact Bool.eq_false_of_not_eq_true hf
        · rintro ⟨-,hrun,rfl,rfl⟩
          simpa using hrun
    | cons d rest =>
      rw [round_next hq]
      by_cases hf : io.fault i=true
      · rw [if_pos hf]
        have hn := hreads (d::(DrainQueue.round io.arrive k (i+1) rest).taken)
          (DrainQueue.round io.arrive k (i+1) rest).dry (by simp) hf
        constructor
        · intro h
          cases h
        · intro h
          exact absurd h.1 hn
      · rw [if_neg hf]
        simp only [List.map_cons]
        rw [runs,PartialRun.run_cons]
        cases hs : s.step S A keys d.received with
        | none =>
          constructor
          · intro h
            cases h
          · intro h
            cases h.2.1
        | some s₁ =>
          dsimp only
          rw [ih,Option.bind_some]
          refine and_congr ?_ Iff.rfl
          constructor
          · intro h j hj
            cases j with
            | zero => exact Bool.eq_false_of_not_eq_true hf
            | succ j =>
              rw [Nat.add_comm j 1,← Nat.add_assoc]
              apply h
              simp only [Round.reads,List.length_cons] at hj ⊢
              omega
          · intro h j hj
            rw [Nat.add_assoc,Nat.add_comm 1 j]
            apply h
            simp only [Round.reads,List.length_cons] at hj ⊢
            omega

end Drain

section Pass

variable {S : Suite} {A : Aead} {keys : Keys} {io : PassIo} {l l' : Loop} {dry : Bool}

/-- Of the plane only its clients matter. -/
theorem harmless_iff {p : Plane} {accept : AcceptOutcome} {client : Nat → ClientIo} :
    Harmless p accept client ↔ Quiet p.clients accept client := by
  constructor
  · intro h q hq
    refine ⟨h.listener,?_,?_,?_⟩
    · rw [hq]
      exact h.refusal
    · rw [hq]
      exact h.admission
    · rw [hq]
      exact h.calm
  · intro h
    exact h p rfl

theorem pollControl_ok_iff {p p' : Plane} {accept : AcceptOutcome} {client : Nat → ClientIo} :
    p.pollControl accept client=some (.ok p') ↔ Quiet p.clients accept client ∧
      p'=({ p with clients := [] } : Plane).behind (withIo (admitted p.clients accept) client) := by
  rw [← harmless_iff]
  constructor
  · intro h
    have hharmless : Harmless p accept client := by
      rw [Plane.pollControl,pollTick] at h
      cases haccept : acceptClient p.clients accept with
      | error e =>
        rw [haccept] at h
        cases h
      | ok table =>
        obtain ⟨hlistener,hrefusal,hadmission,htable⟩ := ok_acceptClient haccept
        rw [haccept,htable] at h
        cases hadvance : Control.advance (withIo (admitted p.clients accept) client) with
        | none =>
          simp only [hadvance,Option.map_none] at h
          cases h
        | some kept =>
          simp only [hadvance,Option.map_some] at h
          exact ⟨hlistener,hrefusal,hadmission,calm_round hadvance (Option.some.inj h)⟩
    have hbehind := (unharmed_iff p accept client).mpr hharmless
    rw [Unharmed,h] at hbehind
    exact ⟨hharmless,Except.ok.inj (Option.some.inj hbehind)⟩
  · rintro ⟨hharmless,rfl⟩
    exact (unharmed_iff p accept client).mpr hharmless

theorem runs_answers (s : Controlled) (now : UInt64) (bufs : List Bytes) :
    runs S A keys s (bufs.map (fun buf => .request buf now))=some (s.answers now bufs) := by
  induction bufs generalizing s with
  | nil => rfl
  | cons buf bufs ih =>
    rw [List.map_cons,runs,PartialRun.run_cons]
    exact ih _

def Controlled.swept (s : Controlled) (now : UInt64) : Controlled :=
  { s with endpoint := (s.endpoint.releaseStaleSlots now).2 }

theorem runs_ticks (s : Controlled) (p : Plan) :
    runs S A keys s (p.ticks io)=(runs S A keys s ((p.drained io).taken.map Datagram.received)).map
      (fun t => (t.swept io.sweepNow).answers io.controlNow (calls (p.served io))) := by
  rw [Plan.ticks,runs,PartialRun.run_append]
  change (runs S A keys s ((p.drained io).taken.map Datagram.received)).bind _=_
  cases runs S A keys s ((p.drained io).taken.map Datagram.received) with
  | none => rfl
  | some t => exact runs_answers (t.swept io.sweepNow) io.controlNow (calls (p.served io))

/-- A pass goes on exactly when the outside leaves it alone and the node gets through its
ticks; it leaves the rest of the queue, and of every client what its own socket makes of it. -/
theorem pass_ok_iff : l.pass S A keys io=.ok (dry,l') ↔
    l.plan.Calm io ∧ runs S A keys l.node (l.plan.ticks io)=some l'.node ∧ l'.plan=l.plan.next io ∧
      dry=(l.plan.drained io).dry := by
  have hdrain : ∀dry left t,drain S A keys io drainK 0 l.queue l.node=.ok (dry,left,t) ↔
      (∀j < (l.plan.drained io).reads,io.fault j=false) ∧
        runs S A keys l.node ((l.plan.drained io).taken.map Datagram.received)=some t ∧
        (l.plan.drained io).dry=dry ∧ (l.plan.drained io).left=left := by
    intro dry left t
    have h := @drain_ok_iff S A keys io drainK 0 l.queue l.node dry left t
    simp only [Nat.zero_add] at h
    exact h
  rw [Loop.pass,runs_ticks]
  constructor
  · intro h
    by_cases hs : io.shutdown=true
    · rw [if_pos hs] at h
      cases h
    rw [if_neg hs] at h
    cases hd : drain S A keys io drainK 0 l.queue l.node with
    | error e =>
      rw [hd] at h
      cases h
    | ok r =>
      obtain ⟨empty,left,t⟩ := r
      obtain ⟨hreads,hrun,hdry,hleft⟩ := (hdrain empty left t).mp hd
      rw [hd] at h
      rw [hrun]
      cases hc : l.clients with
      | none =>
        rw [hc] at h
        cases h
        have hnone : l.plan.served io=[] := by simp [Plan.served,Loop.plan,hc]
        refine ⟨⟨Bool.eq_false_of_not_eq_true hs,hreads,?_⟩,?_,?_,hdry.symm⟩
        · intro clients hclients
          rw [Loop.plan,hc] at hclients
          cases hclients
        · rw [hnone]
          rfl
        · rw [Plan.next,Loop.plan,Loop.plan,hc,← hleft]
          rfl
      | some clients =>
        rw [hc] at h
        dsimp only at h
        have hserved : l.plan.served io=withIo (admitted clients io.accept) io.client := by simp [Plan.served,Loop.plan,hc]
        cases hp : ((t.swept io.sweepNow).plane clients io.controlNow).pollControl io.accept io.client with
        | none =>
          rw [Controlled.swept] at hp
          rw [hp] at h
          cases h
        | some res =>
          cases res with
          | error e =>
            rw [Controlled.swept] at hp
            rw [hp] at h
            cases h
          | ok p =>
            obtain ⟨hquiet,hbehind⟩ := pollControl_ok_iff.mp hp
            rw [Controlled.swept] at hp
            rw [hp] at h
            cases h
            refine ⟨⟨Bool.eq_false_of_not_eq_true hs,hreads,?_⟩,?_,?_,hdry.symm⟩
            · intro clients' hclients
              rw [Loop.plan,hc] at hclients
              cases hclients
              exact hquiet
            · rw [hserved,Option.map_some,answers_pass _ _ _ ([]++fates (withIo (admitted clients io.accept) io.client)),
                hbehind]
              rfl
            · rw [Plan.next,hserved,Loop.plan,Loop.plan,hc,← hleft,hbehind]
              rfl
  · rintro ⟨hcalm,hrun,hplan,rfl⟩
    obtain ⟨t,ht,hnode⟩ := Option.map_eq_some_iff.mp hrun
    have hd := (hdrain (l.plan.drained io).dry (l.plan.drained io).left t).mpr ⟨hcalm.reads,ht,rfl,rfl⟩
    rw [if_neg (by simp [hcalm.running]),hd]
    obtain ⟨node,clients',queue'⟩ := l'
    have hclients : clients'=l.clients.map (fun _ => fates (l.plan.served io)) := congrArg Plan.clients hplan
    have hqueue : queue'=(l.plan.drained io).left := congrArg Plan.queue hplan
    dsimp only at hnode
    cases hc : l.clients with
    | none =>
      have hnone : l.plan.served io=[] := by simp [Plan.served,Loop.plan,hc]
      rw [hnone] at hnode
      rw [hc] at hclients
      rw [hclients,hqueue,← hnode]
      rfl
    | some clients =>
      have hserved : l.plan.served io=withIo (admitted clients io.accept) io.client := by simp [Plan.served,Loop.plan,hc]
      have hquiet := hcalm.control clients (by rw [Loop.plan,hc])
      rw [hc] at hclients
      have hp := (@pollControl_ok_iff ((t.swept io.sweepNow).plane clients io.controlNow) _ io.accept io.client).mpr
        ⟨hquiet,rfl⟩
      rw [Controlled.swept] at hp
      dsimp only
      rw [hp]
      rw [hclients,hqueue,← hnode,hserved,answers_pass _ _ _ ([]++fates (withIo (admitted clients io.accept) io.client))]
      rfl

end Pass

section Loops

variable {S : Suite} {A : Aead} {keys : Keys} {l l' : Loop} {ios : List PassIo}

theorem loop_ok_iff : l.runLoop S A keys ios=.ok l' ↔
    l.plan.CalmAll ios ∧ runs S A keys l.node (l.plan.ticksOf ios)=some l'.node ∧ l'.plan=l.plan.after ios := by
  induction ios generalizing l with
  | nil =>
    obtain ⟨node,clients,queue⟩ := l
    obtain ⟨node',clients',queue'⟩ := l'
    simp [Loop.runLoop,Plan.CalmAll,Plan.ticksOf,Plan.after,Loop.plan,eq_comm]
  | cons io ios ih =>
    rw [Plan.ticksOf,runs,PartialRun.run_append,Loop.runLoop]
    change _ ↔ _ ∧ (runs S A keys l.node (l.plan.ticks io)).bind _=_ ∧ _
    constructor
    · intro h
      cases hp : l.pass S A keys io with
      | error e =>
        rw [hp] at h
        cases h
      | ok r =>
        obtain ⟨dry,l₁⟩ := r
        rw [hp] at h
        obtain ⟨hcalm,hrun,hplan,-⟩ := pass_ok_iff.mp hp
        obtain ⟨hcalms,hruns,hafter⟩ := ih.mp h
        rw [hplan] at hcalms hruns hafter
        rw [hrun]
        exact ⟨⟨hcalm,hcalms⟩,hruns,hafter⟩
    · rintro ⟨⟨hcalm,hcalms⟩,hrun,hafter⟩
      obtain ⟨t,ht,hruns⟩ := Option.bind_eq_some_iff.mp hrun
      let l₁ : Loop := ⟨t,(l.plan.next io).clients,(l.plan.next io).queue⟩
      have hp : l.pass S A keys io=.ok ((l.plan.drained io).dry,l₁) := pass_ok_iff.mpr ⟨hcalm,ht,rfl,rfl⟩
      rw [hp]
      exact (@ih l₁).mpr ⟨hcalms,hruns,hafter⟩

/-- The loop of a daemon is a run of the node. Which ticks it takes, in which order, and how
far it goes are settled outside, whatever state the node is in, as long as no tick ends it. -/
theorem loop_is_run (S : Suite) (A : Aead) (keys : Keys) (l l' : Loop) (ios : List PassIo) :
    l.runLoop S A keys ios=.ok l' ↔
      l.plan.CalmAll ios ∧ l.node.run S A keys (l.plan.ticksOf ios)=some l'.node ∧ l'.plan=l.plan.after ios := by
  rw [run_eq]
  exact loop_ok_iff

/-- The clients panic the control plane through a head whose length overflows alone. -/
theorem advance_none {xs : List (Connection × ClientIo)} (h : Control.advance xs=none) : ∃x∈xs,Overruns x.1 x.2 := by
  induction xs with
  | nil => cases h
  | cons x xs ih =>
    obtain ⟨c,io⟩ := x
    rw [Control.advance] at h
    have hpoll := poll_polled c io
    cases hp : c.pollReadable io.late io.read with
    | none =>
      rw [hp] at hpoll
      cases hpoll with
      | panicked ho => exact ⟨_,List.mem_cons_self,ho⟩
    | some res =>
      rw [hp] at h
      have hrest : Control.advance xs=none := by
        cases res with
        | error e => exact h
        | ok c' => simpa using h
      obtain ⟨x,hx,ho⟩ := ih hrest
      exact ⟨x,List.mem_cons_of_mem _ hx,ho⟩

theorem pass_panicked {io : PassIo} (hs : l.node.Sound S keys) (h : l.pass S A keys io=.error .panicked) :
    ∃clients,l.clients=some clients ∧ ∃x∈withIo (admitted clients io.accept) io.client,Overruns x.1 x.2 := by
  have hdrain : ∀k i queue s,s.Sound S keys → drain S A keys io k i queue s≠.error .panicked := by
    intro k
    induction k with
    | zero => simp [drain]
    | succ k ih =>
      intro i queue s hs
      rw [drain]
      split_ifs
      · simp
      · cases queue++io.arrive i with
        | nil => simp
        | cons d rest =>
          obtain ⟨s',hstep,hs'⟩ := hs.step A d.received
          simpa only [hstep] using ih (i+1) rest s' hs'
  rw [Loop.pass] at h
  by_cases hrunning : io.shutdown=true
  · rw [if_pos hrunning] at h
    cases h
  rw [if_neg hrunning] at h
  cases hd : drain S A keys io drainK 0 l.queue l.node with
  | error e =>
    rw [hd] at h
    cases h
    exact absurd hd (hdrain _ _ _ _ hs)
  | ok r =>
    obtain ⟨empty,left,t⟩ := r
    rw [hd] at h
    cases hc : l.clients with
    | none =>
      rw [hc] at h
      cases h
    | some clients =>
      rw [hc] at h
      refine ⟨clients,rfl,?_⟩
      dsimp only at h
      rw [Plane.pollControl,pollTick] at h
      cases haccept : acceptClient clients io.accept with
      | error e =>
        simp only [Controlled.plane,haccept] at h
        cases h
      | ok table =>
        obtain ⟨-,-,-,htable⟩ := ok_acceptClient haccept
        simp only [Controlled.plane,haccept,htable] at h
        cases hadvance : Control.advance (withIo (admitted clients io.accept) io.client) with
        | none => exact advance_none hadvance
        | some kept =>
          simp only [hadvance,Option.map_some] at h
          split at h
          · rename_i hn
            cases hn
          · cases h
          · cases h

/-- A sound node stays sound, and goes on for as long as the outside is calm. -/
theorem loop_sound (hs : l.node.Sound S keys) (ios : List PassIo) :
    ((∃l',l.runLoop S A keys ios=.ok l') ↔ l.plan.CalmAll ios) ∧
      ∀l',l.runLoop S A keys ios=.ok l' → l'.node.Sound S keys := by
  obtain ⟨s',hrun,hs'⟩ := PartialRun.never_ends (fun s x (h : s.Sound S keys) => h.step A x) l.node hs (l.plan.ticksOf ios)
  constructor
  · constructor
    · rintro ⟨l',h⟩
      exact (loop_ok_iff.mp h).1
    · intro hcalm
      exact ⟨⟨s',(l.plan.after ios).clients,(l.plan.after ios).queue⟩,loop_ok_iff.mpr ⟨hcalm,hrun,rfl⟩⟩
  · intro l' h
    have hnode := (loop_ok_iff.mp h).2.1
    rw [runs,hrun] at hnode
    exact Option.some.inj hnode ▸ hs'

theorem loop_panicked (hs : l.node.Sound S keys) (h : l.runLoop S A keys ios=.error .panicked) :
    ∃pre io post l₁ clients,ios=pre++io::post ∧ l.runLoop S A keys pre=.ok l₁ ∧ l₁.clients=some clients ∧
      ∃x∈withIo (admitted clients io.accept) io.client,Overruns x.1 x.2 := by
  induction ios generalizing l with
  | nil => cases h
  | cons io ios ih =>
    rw [Loop.runLoop] at h
    cases hp : l.pass S A keys io with
    | error e =>
      rw [hp] at h
      cases h
      obtain ⟨clients,hc,hx⟩ := pass_panicked hs hp
      exact ⟨[],io,ios,l,clients,rfl,rfl,hc,hx⟩
    | ok r =>
      obtain ⟨dry,l₁⟩ := r
      rw [hp] at h
      have hone : l.runLoop S A keys [io]=.ok l₁ := by
        rw [Loop.runLoop,hp]
        rfl
      obtain ⟨pre,io',post,l₂,clients,hios,hrun,hc,hx⟩ := ih ((loop_sound hs [io]).2 l₁ hone) h
      refine ⟨io::pre,io',post,l₂,clients,by rw [hios,List.cons_append],?_,hc,hx⟩
      rw [Loop.runLoop,hp]
      exact hrun

end Loops

/-- From its boot a daemon goes on exactly as long as the outside is calm: no byte of a
datagram and no request ends its loop, and where it panics, some client of the control
plane has declared a length that overflows. -/
theorem loop_goes_on (S : Suite) (A : Aead) (keys : Keys) (resolver : Resolver) (ledger : Option GrantLedger) (disk : Disk)
    (token : Option (FixedBytes 64)) (clients : Option (List Connection)) (queue : List Datagram) (ios : List PassIo) :
    let l : Loop := ⟨Controlled.boot S keys resolver ledger disk token,clients,queue⟩
    ((∃l',l.runLoop S A keys ios=.ok l') ↔ l.plan.CalmAll ios) ∧
      (l.runLoop S A keys ios=.error .panicked → ∃pre io post l₁ clients,ios=pre++io::post ∧
        l.runLoop S A keys pre=.ok l₁ ∧ l₁.clients=some clients ∧
          ∃x∈withIo (admitted clients io.accept) io.client,Overruns x.1 x.2) := by
  intro l
  have hs : l.node.Sound S keys := sound_boot S keys resolver ledger disk token
  exact ⟨(loop_sound hs ios).1,fun h => loop_panicked hs h⟩

/-- A pass in which nothing comes in; the one client sends some bytes. -/
def quietPass (bytes : Bytes) : PassIo where
  shutdown := false
  arrive _ := []
  fault _ := false
  sweepNow := 0
  accept := .wouldBlock
  client _ := ⟨false,.data bytes,none⟩
  controlNow := 0

def crowdedLoop (clients : List Connection) (waiting : Nat) : Loop :=
  ⟨sampleControlled,some clients,List.replicate waiting ⟨[],sampleOutside 0⟩⟩

/-- A client that declares too great a length ends the loop in its first pass. -/
theorem loop_goes_on_sample :
    (crowdedLoop [.new] 0).runLoop sampleSuite chachaPoly responderKeys [quietPass hugeHead]=.error .panicked ∧
      ∃pre io post l₁ clients,[quietPass hugeHead]=pre++io::post ∧
        (crowdedLoop [.new] 0).runLoop sampleSuite chachaPoly responderKeys pre=.ok l₁ ∧ l₁.clients=some clients ∧
          ∃x∈withIo (admitted clients io.accept) io.client,Overruns x.1 x.2 := by
  have hhuge : Connection.new.pollReadable false (.data hugeHead)=none := by decide +kernel
  have hcontrol : ∀s : Controlled,(s.plane [.new] 0).pollControl .wouldBlock (quietPass hugeHead).client=none := by
    intro s
    simp [Plane.pollControl,pollTick,acceptClient,withIo,Controlled.plane,Control.advance,quietPass,hhuge]
  have hpass : (crowdedLoop [.new] 0).pass sampleSuite chachaPoly responderKeys (quietPass hugeHead)=.error .panicked := by
    have hdrain : drain sampleSuite chachaPoly responderKeys (quietPass hugeHead) drainK 0 (crowdedLoop [.new] 0).queue
        (crowdedLoop [.new] 0).node=.ok (true,[],sampleControlled) := rfl
    rw [Loop.pass,if_neg (by simp [quietPass]),hdrain]
    dsimp only [crowdedLoop,quietPass] at hcontrol ⊢
    rw [hcontrol]
  have hrun : (crowdedLoop [.new] 0).runLoop sampleSuite chachaPoly responderKeys [quietPass hugeHead]=.error .panicked := by
    rw [Loop.runLoop,hpass]
  exact ⟨hrun,(loop_goes_on sampleSuite chachaPoly responderKeys ⟨[],[],[]⟩ none ⟨[],none,[]⟩ (some sampleToken)
    (some [.new]) [] [quietPass hugeHead]).2 hrun⟩

section Fairness

def Tick.datagram : Tick → Option (Bytes × Outside)
  | .input (.datagram pkt out) => some (pkt,out)
  | _ => none

variable {p : Plan} {io : PassIo} {ios : List PassIo}

end Fairness

end Bolina
