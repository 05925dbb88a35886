import Bolina.Daemon.Slots

namespace Bolina

open Codec Transport Noise
open Handshake (Slot Table processDatagram)

def Act.commits : Act → Bool
  | .committed _ => true
  | _ => false

/-- The input delivers this datagram. -/
def Input.delivers (pkt : Bytes) : Input → Bool
  | .datagram pkt' _ => decide (pkt'=pkt)
  | .sweep _ => false

theorem delivers_self (pkt : Bytes) (out : Outside) : (Input.datagram pkt out).delivers pkt=true := decide_eq_true rfl

section Counts

variable (S : Suite) (A : Aead) (keys : Keys) (pkt : Bytes)

/-- The slots that the deliveries of one datagram commit along a run. -/
def commitsOf : Endpoint → List Input → Nat
  | _,[] => 0
  | e,x::xs =>
    match e.step S A keys x with
    | none => 0
    | some (e',acts) => (if x.delivers pkt then acts.countP Act.commits else 0)+commitsOf e' xs

/-- The handshake table answers the input, in the state it finds. -/
def Endpoint.answers (e : Endpoint) : Input → Bool
  | .datagram pkt out => e.hs.answers S pkt keys.secretStatic keys.sigPub out.ephSecret out.send
  | .sweep _ => false

/-- The deliveries of one datagram along a run that find a handshake slot free. -/
def arrivalsOf : Endpoint → List Input → Nat
  | _,[] => 0
  | e,x::xs =>
    match e.step S A keys x with
    | none => 0
    | some (e',_) => (if x.delivers pkt ∧ e.hs.hasFree then 1 else 0)+arrivalsOf e' xs

end Counts

section Replay

variable {S : Suite} {A : Aead} {keys : Keys}

theorem countP_sent (sent : List Bytes) : (sent.map Act.sent).countP Act.commits=0 := by
  rw [List.countP_eq_zero]
  intro a ha
  obtain ⟨m,_,rfl⟩ := List.mem_map.mp ha
  exact Bool.false_ne_true

/-- A first message commits one slot when it is answered, and none otherwise. -/
theorem handleHandshake_commits {out : Outside} {pkt : Bytes} {e e' : Endpoint} {acts : List Act}
    (h : e.handleHandshake S keys out pkt=some (e',acts)) :
    acts.countP Act.commits=
      if e.hs.answers S pkt keys.secretStatic keys.sigPub out.ephSecret out.send then 1 else 0 := by
  rw [Endpoint.handleHandshake] at h
  obtain ⟨res,hs,sent,hp,-⟩ := Handshake.processed S e.hs pkt keys.secretStatic keys.sigPub out.ephSecret out.send
    out.now
  obtain ⟨-,hends⟩ := Handshake.processDatagram_ends S e.hs pkt _ _ _ _ _ hp
  rw [hp] at h
  cases res with
  | error err =>
    have hn : ¬e.hs.answers S pkt keys.secretStatic keys.sigPub out.ephSecret out.send=true := by
      intro ha
      obtain ⟨i,hi⟩ := hends.mpr ha
      cases hi
    have hacts : acts=sent.map Act.sent := by
      cases err <;> (cases h; rfl)
    rw [if_neg hn,hacts,countP_sent]
  | ok slot =>
    have hacts : acts=sent.map Act.sent++[.committed slot] := by
      dsimp only at h
      generalize hs.slots slot=o at h
      cases o with
      | none =>
        cases h
        rfl
      | some s =>
        dsimp only at h
        generalize e.sessions.admit (UInt32.ofNat slot) 0 s.sendKey s.recvKey s.handshakeHash out.later=r at h
        obtain ⟨res,sessions⟩ := r
        cases res <;> (cases h; rfl)
    rw [if_pos (hends.mp ⟨slot,rfl⟩),hacts,List.countP_append,countP_sent]
    rfl

/-- Only a first message is answered. -/
theorem head_of_answers {t : Table} {pkt : Bytes} {secret sig eph : Key} {send : Bytes → Bool}
    (h : t.answers S pkt secret sig eph send=true) : pkt.head?=some 1 := by
  rw [Table.answers,Bool.and_eq_true,decide_eq_true_iff] at h
  exact h.1.2

theorem bindingEnds_commits {now : UInt64} {plain : Bytes} {hash : Key} {slot idx : UInt32} {e e' : Endpoint}
    {acts : List Act} (h : BindingEnds S keys now plain hash slot idx e e' acts) : acts.countP Act.commits=0 := by
  cases h <;> rfl

theorem handleTransport_commits {out : Outside} {pkt : Bytes} {e e' : Endpoint} {acts : List Act}
    (h : e.handleTransport S A keys out pkt=some (e',acts)) : acts.countP Act.commits=0 := by
  cases handleTransport_ends h with
  | ignored => rfl
  | closed => rfl
  | envelope => rfl
  | binding s recv plain _ acts opens found key unbound ends =>
    exact (List.countP_cons_of_neg Bool.false_ne_true).trans (bindingEnds_commits ends)

theorem step_commits {x : Input} {pkt : Bytes} {e e' : Endpoint} {acts : List Act} (hx : x.delivers pkt=true)
    (h : e.step S A keys x=some (e',acts)) :
    acts.countP Act.commits=if e.answers S keys x then 1 else 0 := by
  cases x with
  | sweep now => cases hx
  | datagram pkt' out =>
    by_cases hk : pkt'.head?=some 1
    · rw [Endpoint.step,handleDatagram_first hk] at h
      exact handleHandshake_commits h
    · have hn : ¬e.answers S keys (.datagram pkt' out)=true := fun ha => hk (head_of_answers ha)
      rw [if_neg hn]
      cases pkt' with
      | nil =>
        cases h
        rfl
      | cons b rest =>
        rw [Endpoint.step,Endpoint.handleDatagram.eq_def] at h
        dsimp only at h
        rw [if_neg (fun hb => hk (congrArg some hb))] at h
        by_cases h4 : b=4
        · rw [if_pos h4] at h
          exact handleTransport_commits h
        · rw [if_neg h4] at h
          cases h
          rfl

/-- Only a free slot is answered. -/
theorem free_of_answers {t : Table} {pkt : Bytes} {secret sig eph : Key} {send : Bytes → Bool}
    (h : t.answers S pkt secret sig eph send=true) : t.hasFree=true := by
  rw [Table.answers,Bool.and_eq_true] at h
  cases hp : t.position with
  | none =>
    rw [hp] at h
    cases h.2
  | some i => exact Handshake.hasFree_of_position t i hp

theorem delivery_commits_le {x : Input} {pkt : Bytes} {e e' : Endpoint} {acts : List Act} (hx : x.delivers pkt=true)
    (h : e.step S A keys x=some (e',acts)) : acts.countP Act.commits ≤ if e.hs.hasFree then 1 else 0 := by
  rw [step_commits hx h]
  by_cases ha : e.answers S keys x=true
  · have hf : e.hs.hasFree=true := by
      cases x with
      | datagram pkt' out => exact free_of_answers ha
      | sweep now => cases hx
    rw [if_pos ha,if_pos hf]
  · rw [if_neg ha]
    exact Nat.zero_le _

theorem commitsOf_le (pkt : Bytes) (e : Endpoint) (xs : List Input) :
    commitsOf S A keys pkt e xs≤arrivalsOf S A keys pkt e xs := by
  induction xs generalizing e with
  | nil => exact Nat.le_refl 0
  | cons x xs ih =>
    rw [commitsOf,arrivalsOf]
    cases hs : e.step S A keys x with
    | none => exact Nat.le_refl 0
    | some r =>
      obtain ⟨e',acts⟩ := r
      dsimp only
      apply Nat.add_le_add _ (ih e')
      by_cases hx : x.delivers pkt=true
      · rw [if_pos hx]
        simpa only [hx,true_and] using delivery_commits_le hx hs
      · rw [if_neg hx]
        exact Nat.zero_le _

/-- An initiation that an initiator wrote to this node, with the copies of it that a run delivers:
each draws an ephemeral key that leaves no shared secret zero, and the socket takes its response. -/
structure Answerable (S : Suite) (keys : Keys) (pkt : Bytes) (xs : List Input) : Prop where
  laws : S.Laws
  written : ∃si ei index ts cookie,pkt=sentMsg1 S si keys.secretStatic ei keys.sigPub index ts cookie ∧
    ∀out,Input.datagram pkt out∈xs →
      Handshake.NonzeroSecrets S si keys.secretStatic ei out.ephSecret ∧ ∀msg,out.send msg=true

/-- Nothing is remembered of an initiation: every copy that finds a slot free commits it. -/
theorem delivery_commits {pkt : Bytes} {out : Outside} {e e' : Endpoint} {acts : List Act} (hi : InStep e.tables)
    (hr : Answerable S keys pkt [.datagram pkt out]) (h : e.step S A keys (.datagram pkt out)=some (e',acts)) :
    acts.countP Act.commits=if e.hs.hasFree then 1 else 0 := by
  obtain ⟨hS,si,ei,index,ts,cookie,hpkt,hout⟩ := hr
  obtain ⟨hn,hsend⟩ := hout out (List.mem_singleton.mpr rfl)
  by_cases hf : e.hs.hasFree=true
  · obtain ⟨i,hp⟩ := Handshake.position_of_hasFree _ hf
    have hstep := @step_sent S A keys e out hi hS si ei index ts cookie i hn hp (hsend _)
    rw [← hpkt,h] at hstep
    cases hstep
    rw [if_pos hf]
    rfl
  · have hle := delivery_commits_le (delivers_self pkt out) h
    rw [if_neg hf] at hle ⊢
    exact Nat.le_zero.mp hle

theorem Answerable.mono {pkt : Bytes} {xs ys : List Input} (h : Answerable S keys pkt xs) (hsub : ys⊆xs) :
    Answerable S keys pkt ys := by
  obtain ⟨hS,si,ei,index,ts,cookie,hpkt,hout⟩ := h
  exact ⟨hS,si,ei,index,ts,cookie,hpkt,fun out ho => hout out (hsub ho)⟩

theorem commitsOf_answerable {pkt : Bytes} {e : Endpoint} {xs : List Input} (hi : InStep e.tables)
    (hr : Answerable S keys pkt xs) : commitsOf S A keys pkt e xs=arrivalsOf S A keys pkt e xs := by
  induction xs generalizing e with
  | nil => rfl
  | cons x xs ih =>
    rw [commitsOf,arrivalsOf]
    cases hs : e.step S A keys x with
    | none => rfl
    | some r =>
      obtain ⟨e',acts⟩ := r
      dsimp only
      rw [ih ((step_effect hi hs).inStep hi) (hr.mono (List.subset_cons_self x xs))]
      congr 1
      cases x with
      | sweep now => rfl
      | datagram pkt' out =>
        by_cases hx : pkt'=pkt
        · subst hx
          have hone : Answerable S keys pkt' [.datagram pkt' out] := hr.mono (by simp)
          rw [if_pos (delivers_self pkt' out),delivery_commits hi hone hs]
          simp only [delivers_self,true_and]
        · have hn : (Input.datagram pkt' out).delivers pkt=false := decide_eq_false hx
          simp [hn]

end Replay

/-- The copies of a datagram commit at most one slot in every run that delivers at most one
of them while a slot is free; and where the copies are those of an initiation that can be
answered, in no other run. -/
theorem initiation_replay (S : Suite) (A : Aead) (keys : Keys) (resolver : Resolver) (ledger : Option State.GrantLedger)
    (disk : State.Disk) (pkt : Bytes) (xs : List Input) :
    (arrivalsOf S A keys pkt (Endpoint.boot S keys resolver ledger disk) xs≤1 →
      commitsOf S A keys pkt (Endpoint.boot S keys resolver ledger disk) xs≤1) ∧
    (Answerable S keys pkt xs →
      (commitsOf S A keys pkt (Endpoint.boot S keys resolver ledger disk) xs≤1 ↔
        arrivalsOf S A keys pkt (Endpoint.boot S keys resolver ledger disk) xs≤1)) := by
  constructor
  · intro h
    exact Nat.le_trans (commitsOf_le pkt _ xs) h
  · intro hr
    rw [commitsOf_answerable (inStep_boot S keys resolver ledger disk) hr]

theorem commitsOf_delivered {S : Suite} {A : Aead} {keys : Keys} {e e' : Endpoint} {pkt : Bytes} {out : Outside}
    {acts : List Act} (xs : List Input) (h : e.step S A keys (.datagram pkt out)=some (e',acts)) :
    commitsOf S A keys pkt e (.datagram pkt out::xs)=acts.countP Act.commits+commitsOf S A keys pkt e' xs := by
  rw [commitsOf,h]
  dsimp only
  rw [if_pos (delivers_self pkt out)]

theorem arrivalsOf_delivered {S : Suite} {A : Aead} {keys : Keys} {e e' : Endpoint} {pkt : Bytes} {out : Outside}
    {acts : List Act} (xs : List Input) (h : e.step S A keys (.datagram pkt out)=some (e',acts)) :
    arrivalsOf S A keys pkt e (.datagram pkt out::xs)=(if e.hs.hasFree then 1 else 0)+arrivalsOf S A keys pkt e' xs := by
  rw [arrivalsOf,h]
  simp only [delivers_self,true_and]

theorem arrivalsOf_sweep (S : Suite) (A : Aead) (keys : Keys) (pkt : Bytes) (e : Endpoint) (now : UInt64) :
    arrivalsOf S A keys pkt e [.sweep now]=0 := by
  simp [arrivalsOf,Endpoint.step,Input.delivers]

section Sample

theorem engaged_inStep (now : UInt64) : InStep (engagedEndpoint now).tables := sample_inStep.commit _ _ _

/-- A copy of the initiation at the endpoint that has taken it in. -/
theorem sample_copy : ∃e msg,(engagedEndpoint 0).step sampleSuite chachaPoly responderKeys
    (.datagram (sampleInitiation 7) (sampleOutside 0))=some (e,[.sent msg,.committed 1]) :=
  ⟨_,_,@step_sent sampleSuite chachaPoly responderKeys (engagedEndpoint 0) (sampleOutside 0) (engaged_inStep 0)
    sampleSuite_laws initiatorSecret initiatorEph 7 1700000000000 (fixed 16 []) 1 sample_nonzero (by decide +kernel) rfl⟩

/-- A recorded initiation that is delivered twice commits two slots. -/
theorem replayed_initiation_commits_twice :
    ¬commitsOf sampleSuite chachaPoly responderKeys (sampleInitiation 7) bootedEndpoint
      [.datagram (sampleInitiation 7) (sampleOutside 0),.datagram (sampleInitiation 7) (sampleOutside 0)]≤1 := by
  have hone : ∀msg i,[Act.sent msg,.committed i].countP Act.commits=1 := fun _ _ => rfl
  obtain ⟨e,msg,hcopy⟩ := sample_copy
  rw [commitsOf_delivered _ (sample_step 7 0),commitsOf_delivered _ hcopy,commitsOf,hone,hone]
  decide

/-- Two copies of the initiation with a sweep between them. -/
def copiedRun : List Input :=
  [.datagram (sampleInitiation 7) (sampleOutside 0),.sweep 0,.datagram (sampleInitiation 7) (sampleOutside 0)]

theorem sample_answerable : Answerable sampleSuite responderKeys (sampleInitiation 7) copiedRun := by
  refine ⟨sampleSuite_laws,initiatorSecret,initiatorEph,7,1700000000000,fixed 16 [],rfl,?_⟩
  intro out ho
  have hout : out=sampleOutside 0 := by simpa [copiedRun] using ho
  rw [hout]
  exact ⟨sample_nonzero,fun _ => rfl⟩

/-- One copy commits one slot; two of them meet the claim exactly if one finds no slot free. -/
theorem initiation_replay_sample :
    commitsOf sampleSuite chachaPoly responderKeys (sampleInitiation 7) bootedEndpoint (copiedRun.take 2)≤1 ∧
      (commitsOf sampleSuite chachaPoly responderKeys (sampleInitiation 7) bootedEndpoint copiedRun≤1 ↔
        arrivalsOf sampleSuite chachaPoly responderKeys (sampleInitiation 7) bootedEndpoint copiedRun≤1) := by
  have hfirst : arrivalsOf sampleSuite chachaPoly responderKeys (sampleInitiation 7) bootedEndpoint
      (copiedRun.take 2)≤1 := by
    have hfree : bootedEndpoint.hs.hasFree=true := by decide
    have htake : copiedRun.take 2=[.datagram (sampleInitiation 7) (sampleOutside 0),.sweep 0] := rfl
    rw [htake,arrivalsOf_delivered _ (sample_step 7 0),if_pos hfree,arrivalsOf_sweep]
  exact ⟨(initiation_replay sampleSuite chachaPoly responderKeys (Resolver.new sampleSuite.toCrypto responderSig.toList)
      none ⟨[],none,[]⟩ (sampleInitiation 7) (copiedRun.take 2)).1 hfirst,
    (initiation_replay sampleSuite chachaPoly responderKeys (Resolver.new sampleSuite.toCrypto responderSig.toList)
      none ⟨[],none,[]⟩ (sampleInitiation 7) copiedRun).2 sample_answerable⟩

end Sample

end Bolina
