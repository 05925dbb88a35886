import Bolina.Transport.RelayConservation
import Mathlib.Tactic.IntervalCases

namespace Bolina.RelayStore

open Panic Slots

/-- The `k`-th call stored a packet for the recipient. -/
def StoredFor (hist : History) (r : Addr) (k : Nat) : Prop :=
  ∃senderIndex body nowMs,StoredAt hist k r senderIndex body nowMs

/-- The packets of every recipient are given out in the order in which they were stored. -/
def InOrder {capacity : Nat} (hist : History) (fate : Nat → Fate capacity) : Prop :=
  ∀r k k',StoredFor hist r k → StoredFor hist r k' → k < k' →
    ∀d d',fate k=.drained d → fate k'=.drained d' → d < d'

/-- The waiting packets of a recipient stand in the order in which they were stored,
and none of them waits behind one that was given out. -/
structure Queue {capacity : Nat} (hist : History) (s : Store capacity) (fate : Nat → Fate capacity) : Prop where
  waits : ∀r k k',StoredFor hist r k → StoredFor hist r k' → k < k' →
    ∀i i',fate k=.waits i → fate k'=.waits i' → Before s i i'
  ahead : ∀r k k',StoredFor hist r k → StoredFor hist r k' → k < k' →
    ∀i d,fate k=.waits i → fate k'≠.drained d
  order : InOrder hist fate

section Turns

variable {capacity : Nat} {hist : History} {s s' : Store capacity} {fate : Nat → Fate capacity} {x : Call × Answer}
  {gone : Fin capacity → Fate capacity} {new : Fate capacity} {r : Addr} {k : Nat}

theorem StoredFor.lt (h : StoredFor hist r k) : k < hist.length := by
  obtain ⟨_,_,_,h⟩ := h
  exact h.lt

theorem storedFor_concat (h : StoredFor (hist++[x]) r k) :
    StoredFor hist r k ∨ (k=hist.length ∧ ∃senderIndex body nowMs,
      x=(.store r senderIndex body nowMs,.stored (.ok ()))) := by
  obtain ⟨senderIndex,body,nowMs,h⟩ := h
  obtain hold | ⟨hlast,hx⟩ := storedAt_concat.mp h
  · exact .inl ⟨senderIndex,body,nowMs,hold⟩
  · exact .inr ⟨hlast,senderIndex,body,nowMs,hx⟩

theorem before_asymm {i j : Fin capacity} (h : Before s i j) : ¬Before s j i := by
  intro h'
  obtain hlt | ⟨heq,hlt⟩ := h
  · obtain hlt' | ⟨heq',_⟩ := h'
    · exact UInt64.lt_asymm hlt hlt'
    · rw [heq'] at hlt
      exact UInt64.lt_irrefl _ hlt
  · obtain hlt' | ⟨_,hlt'⟩ := h'
    · rw [heq] at hlt'
      exact UInt64.lt_irrefl _ hlt'
    · exact lt_asymm hlt hlt'

/-- An old packet that still waits has its slot as it was. -/
theorem Accounts.still_waits (h : Accounts hist s fate) (ht : Turn hist.length x s s' gone new)
    (hk : StoredFor hist r k) {i : Fin capacity} (hw : nextFate hist.length gone new fate k=.waits i) :
    fate k=.waits i ∧ (s.packets i).inUse=true ∧ (s.packets i).recipientAddr=r ∧ gone i=.waits i ∧
      s'.packets i=s.packets i := by
  obtain ⟨_,_,_,hk⟩ := hk
  obtain ⟨j,hj,hc,he⟩ | ⟨hno,he⟩ := h.old gone new hk
  · rw [he] at hw
    obtain ⟨rfl,hsame⟩ := ht.stays j hc.inUse i hw
    exact ⟨hj,hc.inUse,hc.recipient,hw,hsame⟩
  · exact absurd (he.symm.trans hw) (hno i)

/-- An old packet that is out was out before, or this call has taken it from its slot. -/
theorem Accounts.now_drained (h : Accounts hist s fate) (ht : Turn hist.length x s s' gone new)
    (hk : StoredFor hist r k) {d : Nat} (hd : nextFate hist.length gone new fate k=.drained d) :
    (fate k=.drained d ∧ d < hist.length) ∨ (d=hist.length ∧ ∃i,fate k=.waits i ∧ (s.packets i).inUse=true ∧
      (s.packets i).recipientAddr=r ∧ gone i=.drained hist.length) := by
  obtain ⟨_,_,_,hk⟩ := hk
  obtain ⟨j,hj,hc,he⟩ | ⟨hno,he⟩ := h.old gone new hk
  · rw [he] at hd
    obtain ⟨rfl,_⟩ := ht.out j hc.inUse d hd
    exact .inr ⟨rfl,j,hj,hc.inUse,hc.recipient,hd⟩
  · rw [he] at hd
    exact .inl ⟨hd,(h.drained k _ _ _ _ hk d hd).2.lt⟩

/-- Every packet that is given out is one that was stored. -/
theorem Accounts.drained_packet (h : Accounts hist s fate) {d : Nat} {p : DrainedPacket} (hd : DrainedAt hist d r p) :
    ∃k nowMs,StoredAt hist k r p.senderIndex p.body nowMs ∧ fate k=.drained d := by
  obtain ⟨k,senderIndex,body,nowMs,hk,hf⟩ := h.drains d r p hd
  obtain ⟨_,t,hself⟩ := h.drained k _ _ _ _ hk d hf
  obtain ⟨t',hd⟩ := hd
  rw [hself] at hd
  cases hd
  exact ⟨k,nowMs,hk,hf⟩

theorem Queue.turn (h : Queue hist s fate) (ha : Accounts hist s fate) (ht : Turn hist.length x s s' gone new)
    (hlast : Last s s' gone new) : Queue (hist++[x]) s' (nextFate hist.length gone new fate) where
  waits r k k' hk hk' hlt i i' hi hi' := by
    obtain hk | ⟨rfl,_⟩ := storedFor_concat hk
    · obtain ⟨hf,hin,hr,hg,hsame⟩ := ha.still_waits ht hk hi
      obtain hk' | ⟨rfl,senderIndex,body,nowMs,hx⟩ := storedFor_concat hk'
      · obtain ⟨hf',_,_,_,hsame'⟩ := ha.still_waits ht hk' hi'
        rw [Before,hsame,hsame']
        exact h.waits r k k' hk hk' hlt i i' hf hf'
      · obtain ⟨j,hnew,hc,_⟩ := ht.enters _ _ _ _ hx
        rw [nextFate_self] at hi'
        obtain rfl := Fate.waits.inj (hnew.symm.trans hi')
        exact hlast j hnew i hin hg (hr.trans hc.recipient.symm)
    · obtain hk' | ⟨rfl,_⟩ := storedFor_concat hk'
      · exact absurd hk'.lt (lt_asymm hlt)
      · exact absurd hlt (lt_irrefl _)
  ahead r k k' hk hk' hlt i d hi hd := by
    obtain hk | ⟨rfl,_⟩ := storedFor_concat hk
    · obtain ⟨hf,hin,hr,hg,_⟩ := ha.still_waits ht hk hi
      obtain hk' | ⟨rfl,senderIndex,body,nowMs,hx⟩ := storedFor_concat hk'
      · obtain ⟨hf',_⟩ | ⟨rfl,j,hf',hin',hr',hg'⟩ := ha.now_drained ht hk' hd
        · exact h.ahead r k k' hk hk' hlt i d hf hf'
        · -- the drain takes the first of the two
          exact before_asymm (h.waits r k k' hk hk' hlt i j hf hf')
            (ht.picks j i hin' hin hg' hg (hr.trans hr'.symm))
      · obtain ⟨j,hnew,_⟩ := ht.enters _ _ _ _ hx
        rw [nextFate_self,hnew] at hd
        cases hd
    · obtain hk' | ⟨rfl,_⟩ := storedFor_concat hk'
      · exact absurd hk'.lt (lt_asymm hlt)
      · exact absurd hlt (lt_irrefl _)
  order r k k' hk hk' hlt d d' hd hd' := by
    obtain hk | ⟨rfl,senderIndex,body,nowMs,hx⟩ := storedFor_concat hk
    · obtain hk' | ⟨rfl,senderIndex,body,nowMs,hx⟩ := storedFor_concat hk'
      · obtain ⟨hf,hlen⟩ | ⟨rfl,i,hf,hin,_,hg⟩ := ha.now_drained ht hk hd
        · obtain ⟨hf',_⟩ | ⟨rfl,_⟩ := ha.now_drained ht hk' hd'
          · exact h.order r k k' hk hk' hlt d d' hf hf'
          · exact hlen
        · obtain ⟨hf',_⟩ | ⟨rfl,j,hf',hin',_,hg'⟩ := ha.now_drained ht hk' hd'
          · exact absurd hf' (h.ahead r k k' hk hk' hlt i d' hf)
          · obtain rfl := ht.single i j hin hin' hg hg'
            have hbefore := h.waits r k k' hk hk' hlt i i hf hf'
            exact absurd hbefore (before_asymm hbefore)
      · obtain ⟨j,hnew,_⟩ := ht.enters _ _ _ _ hx
        rw [nextFate_self,hnew] at hd'
        cases hd'
    · obtain ⟨j,hnew,_⟩ := ht.enters _ _ _ _ hx
      rw [nextFate_self,hnew] at hd
      cases hd

end Turns

section Runs

variable {capacity : Nat} {s : Store capacity} {calls : List Call} {hist : History}

theorem queue_new (capacity : Nat) : Queue [] (Store.new capacity) (fun _ => .lost) where
  waits _ _ _ hk := absurd hk.lt (Nat.not_lt_zero _)
  ahead _ _ _ hk := absurd hk.lt (Nat.not_lt_zero _)
  order _ _ _ hk := absurd hk.lt (Nat.not_lt_zero _)

theorem runs_calls (h : (Store.new capacity).runs calls=some (hist,s)) : hist.map Prod.fst=calls := by
  induction calls using List.reverseRecOn generalizing hist s with
  | nil =>
    cases h
    rfl
  | append_singleton calls call ih =>
    obtain ⟨old,s₁,answer,hold,_,rfl⟩ := runs_concat_eq h
    rw [List.map_append,ih hold]
    rfl

/-- A packet that waits has the time of one of the calls. -/
theorem waiting_time (h : (Store.new capacity).runs calls=some (hist,s)) {i : Fin capacity}
    (hin : (s.packets i).inUse=true) : (s.packets i).storedAtMs∈calls.filterMap Call.time := by
  obtain ⟨_,fate,ha⟩ := runs_accounts h
  obtain ⟨k,r,senderIndex,body,nowMs,hk,hf⟩ := ha.slots i hin
  have hcall : Call.store r senderIndex body nowMs∈calls := by
    rw [← runs_calls h]
    exact List.mem_map_of_mem (f := Prod.fst) (List.mem_of_getElem? hk)
  exact List.mem_filterMap.mpr ⟨_,hcall,congrArg some (ha.waits k _ _ _ _ hk i hf).storedAt.symm⟩

theorem runs_queue (hrun : (Store.new capacity).runs calls=some (hist,s))
    (hmono : (calls.filterMap Call.time).Pairwise (· ≤ ·))
    (hclear : ∀pre call post old s₁,calls=pre++call::post → (Store.new capacity).runs pre=some (old,s₁) →
      ¬call.Crosses s₁) : Sound s ∧ ∃fate,Accounts hist s fate ∧ Queue hist s fate := by
  induction calls using List.reverseRecOn generalizing hist s with
  | nil =>
    cases hrun
    exact ⟨sound_new capacity,_,accounts_new capacity,queue_new capacity⟩
  | append_singleton calls call ih =>
    obtain ⟨old,s₁,answer,hold,hact,rfl⟩ := runs_concat_eq hrun
    rw [List.filterMap_append,List.pairwise_append] at hmono
    obtain ⟨hs,fate,hfate,hqueue⟩ := ih hold hmono.1 (by
      intro pre c post old' s₂ hsplit
      refine hclear pre c (post++[call]) old' s₂ ?_
      rw [hsplit,List.append_assoc,List.cons_append])
    obtain ⟨_,hnone⟩ | ⟨_,_,hsome,hs',_,gone,new,hturn,hlast⟩ := hs.act call old.length
    · rw [hact] at hnone
      cases hnone
    · rw [hact] at hsome
      cases hsome
      refine ⟨hs',_,hfate.turn hturn,hqueue.turn hfate hturn (hlast (hclear calls call [] old s₁ rfl hold) ?_)⟩
      intro nowMs htime i hin
      refine hmono.2.2 _ (waiting_time hold hin) nowMs ?_
      rw [List.filterMap_cons_some htime]
      exact List.mem_cons_self

end Runs

/-- The store is a queue for every recipient, over every run in which time goes on and no
packet takes a slot before that of an older one of the same recipient and time. -/
theorem drain_order {calls : List Call} {hist : History} {s : Store maxStored}
    (hrun : (Store.new maxStored).runs calls=some (hist,s)) (hmono : (calls.filterMap Call.time).Pairwise (· ≤ ·))
    (hclear : ∀pre call post old s₁,calls=pre++call::post → (Store.new maxStored).runs pre=some (old,s₁) →
      ¬call.Crosses s₁) : ∃fate,Accounts hist s fate ∧ InOrder hist fate := by
  obtain ⟨_,fate,hfate,hqueue⟩ := runs_queue hrun hmono hclear
  exact ⟨fate,hfate,hqueue.order⟩

/-- No packet of the recipient and time of the call has a free slot before it. -/
def Store.clear {capacity : Nat} (s : Store capacity) : Call → Bool
  | .store r _ _ nowMs =>
    (List.finRange capacity).all (fun j =>
      !((s.packets j).isFor r && (s.packets j).storedAtMs==nowMs) ||
        (List.finRange capacity).all (fun i => !decide (i < j) || ((s.packets i).swept nowMs).inUse))
  | _ => true

theorem not_crosses_of_clear {capacity : Nat} {s : Store capacity} {call : Call} (h : s.clear call=true) :
    ¬call.Crosses s := by
  intro hcross
  cases call with
  | store r senderIndex body nowMs =>
    obtain ⟨i,j,hfree,_,hij,hfor,htime⟩ := hcross.slots
    rw [Store.clear,List.all_eq_true] at h
    have hj := h j (List.mem_finRange j)
    rw [hfor,htime,beq_self_eq_true] at hj
    have hused := List.all_eq_true.mp hj i (List.mem_finRange i)
    rw [hfree,decide_eq_true hij] at hused
    cases hused
  | drainNext _ _ => exact hcross
  | purgeExpired _ => exact hcross
  | reset => exact hcross

/-- Two packets in one millisecond, the first given out, and a third one in its slot a
millisecond later. -/
def reuse (r : Addr) : List Call :=
  [.store r 1 [10] 0,.store r 2 [20] 0,.drainNext r 0,.store r 3 [30] 1,.drainNext r 1,.drainNext r 1]

theorem drain_order_sample : ∃hist s,(Store.new maxStored).runs (reuse (fixed 16 [7]))=some (hist,s) ∧
    hist.map Prod.snd=[.stored (.ok ()),.stored (.ok ()),.drained (some ⟨1,[10]⟩),.stored (.ok ()),
      .drained (some ⟨2,[20]⟩),.drained (some ⟨3,[30]⟩)] ∧
    ∃fate,Accounts hist s fate ∧ InOrder hist fate := by
  have hanswers : ((Store.new maxStored).runs (reuse (fixed 16 [7]))).map (fun r => r.1.map Prod.snd)=
      some [.stored (.ok ()),.stored (.ok ()),.drained (some ⟨1,[10]⟩),.stored (.ok ()),
        .drained (some ⟨2,[20]⟩),.drained (some ⟨3,[30]⟩)] := by decide +kernel
  obtain ⟨⟨hist,s⟩,hrun,hhist⟩ := Option.map_eq_some_iff.mp hanswers
  have hclear : ∀k < 6,((Store.new maxStored).runs ((reuse (fixed 16 [7])).take k)).all (fun r =>
      (reuse (fixed 16 [7]))[k]?.all r.2.clear)=true := by decide +kernel
  refine ⟨hist,s,hrun,hhist,drain_order hrun (by decide) ?_⟩
  intro pre call post old s₁ hsplit hpre
  have hk : pre.length < 6 := by
    have hlen := congrArg List.length hsplit
    rw [List.length_append,List.length_cons] at hlen
    have hsix : (reuse (fixed 16 [7])).length=6 := rfl
    omega
  have hthere := hclear pre.length hk
  rw [hsplit,List.take_left',hpre,List.getElem?_append_right (Nat.le_refl _),Nat.sub_self] at hthere
  · exact not_crosses_of_clear hthere
  · rfl

/-- Two packets, one given out, and a third one in its slot, all in one millisecond. -/
def burst (r : Addr) : List Call :=
  [.store r 1 [10] 0,.store r 2 [20] 0,.drainNext r 0,.store r 3 [30] 0,.drainNext r 0,.drainNext r 0]

def burstAnswers : List Answer :=
  [.stored (.ok ()),.stored (.ok ()),.drained (some ⟨1,[10]⟩),.stored (.ok ()),.drained (some ⟨3,[30]⟩),
    .drained (some ⟨2,[20]⟩)]

theorem reused_slot_overtakes : ∃calls hist s,(calls.filterMap Call.time).Pairwise (· ≤ ·) ∧ Call.reset∉calls ∧
    (Store.new maxStored).runs calls=some (hist,s) ∧ ¬∃fate,Accounts hist s fate ∧ InOrder hist fate := by
  have hanswers : ((Store.new maxStored).runs (burst (fixed 16 [7]))).map (fun r => r.1)=
      some ((burst (fixed 16 [7])).zip burstAnswers) := by decide +kernel
  obtain ⟨⟨hist,s⟩,hrun,hhist⟩ := Option.map_eq_some_iff.mp hanswers
  obtain rfl : hist=(burst (fixed 16 [7])).zip burstAnswers := hhist
  refine ⟨burst (fixed 16 [7]),_,s,by decide,by decide,hrun,?_⟩
  intro hfates
  obtain ⟨fate,ha,horder⟩ := hfates
  -- the fifth call gives out the third packet, the sixth one the second
  obtain ⟨k,t,hk,hf⟩ := ha.drained_packet (d := 4) ⟨0,rfl⟩
  obtain ⟨k',t',hk',hf'⟩ := ha.drained_packet (d := 5) ⟨0,rfl⟩
  have hthird : k=3 := by
    have hlt : k < 6 := hk.lt
    interval_cases k <;> simp [StoredAt,burst,burstAnswers] at hk ⊢
  have hsecond : k'=1 := by
    have hlt : k' < 6 := hk'.lt
    interval_cases k' <;> simp [StoredAt,burst,burstAnswers] at hk' ⊢
  subst hthird hsecond
  exact absurd (horder _ 1 3 ⟨_,_,_,hk'⟩ ⟨_,_,_,hk⟩ (by decide) 5 4 hf' hf) (by decide)

end Bolina.RelayStore
