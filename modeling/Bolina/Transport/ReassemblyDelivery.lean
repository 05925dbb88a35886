import Bolina.Framework.Collector
import Bolina.Transport.ReassemblyState

namespace Bolina.Reassembly

open GuardedRun Lockstep Panic Slots
open Evidence (windowBits bitAt)

/-- A fragment is no longer than a message may be. -/
def Bounded : Call → Prop
  | .ingest _ _ _ _ fragBytes => fragBytes ≤ maxMessage
  | .evictExpired _ => True

instance : DecidablePred Bounded
  | .ingest _ _ _ _ _ => inferInstanceAs (Decidable (_ ≤ _))
  | .evictExpired _ => inferInstanceAs (Decidable True)

/-- The state after a call; one that panics leaves none. -/
def PeerReassembler.next {maxContexts : Nat} (maxFragments : Nat) (s : PeerReassembler maxContexts) (call : Call) :
    PeerReassembler maxContexts := (s.act maxFragments call).getD s

/-- The event that a call gives for a message. -/
def eventOf {maxContexts : Nat} (maxFragments : Nat) (msgId : UInt64) (s : PeerReassembler maxContexts) :
    Call → Option PeerEvent
  | .ingest nowMs id index total fragBytes =>
    if id=msgId then (s.ingest maxFragments nowMs id index total fragBytes).map Prod.fst else none
  | .evictExpired _ => none

/-- The events of a message over a run. -/
def heard {maxContexts : Nat} (maxFragments : Nat) (msgId : UInt64) :
    PeerReassembler maxContexts → List Call → List PeerEvent
  | _,[] => []
  | s,call::calls => (eventOf maxFragments msgId s call).toList++heard maxFragments msgId (s.next maxFragments call) calls

def sentIndex (msgId : UInt64) : Call → Option Nat
  | .ingest _ id index _ _ => if id=msgId then some index else none
  | .evictExpired _ => none

/-- The fragments of a message in the order of their delivery. -/
def sent (msgId : UInt64) (calls : List Call) : List Nat := calls.filterMap (sentIndex msgId)

/-- No context is in use for the message. -/
def PeerReassembler.Lacks {maxContexts : Nat} (s : PeerReassembler maxContexts) (msgId : UInt64) : Prop :=
  ∀i,(s.contexts i).inUse=true → (s.contexts i).msgId≠msgId

instance {maxContexts : Nat} (s : PeerReassembler maxContexts) (msgId : UInt64) : Decidable (s.Lacks msgId) :=
  inferInstanceAs (Decidable (∀_,_))

/-- The fragments of the message are as it has them, there is room for them, and
its context does not time out. Nothing is asked of other messages. -/
def Delivers {maxContexts : Nat} (msgId : UInt64) (total : Nat) (size : Nat → Nat) (s : PeerReassembler maxContexts) :
    Call → Prop
  | .ingest _ id index total' fragBytes => id=msgId →
    (index < total ∧ total'=total ∧ fragBytes=size index) ∧
    (s.Lacks msgId → ∃i,(s.contexts i).inUse=false) ∧
    ((∀i,(s.contexts i).inUse=true → (s.contexts i).msgId=msgId → bitAt (s.contexts i).seen index=false) →
      s.bytesUsed+fragBytes ≤ memoryPerPeer)
  | .evictExpired nowMs => ∀i,(s.contexts i).inUse=true → (s.contexts i).msgId=msgId → (s.contexts i).expired nowMs=false

instance {maxContexts : Nat} (msgId : UInt64) (total : Nat) (size : Nat → Nat) (s : PeerReassembler maxContexts)
    (call : Call) : Decidable (Delivers msgId total size s call) :=
  match call with
  | .ingest _ _ _ _ _ => inferInstanceAs (Decidable (_ → _))
  | .evictExpired _ => inferInstanceAs (Decidable (∀_,_))

def eventFor : Collector.Answer → PeerEvent
  | .part => .Partial
  | .again => .Duplicate
  | .whole => .Complete

section Delivery

variable {maxContexts maxFragments : Nat} {s : PeerReassembler maxContexts}

/-- A slot that is free is not counted. -/
theorem Sound.active_lt (h : Sound maxFragments s) {i : Fin maxContexts} (hfree : (s.contexts i).inUse=false) :
    s.active < maxContexts := by
  have hcount := total_update (fun c => c.inUse.toNat) s.contexts i { s.contexts i with inUse := true }
  have hle := total_le (fun c : Context => c.inUse.toNat)
    (Function.update s.contexts i { s.contexts i with inUse := true }) (fun _ => Bool.toNat_le _)
  change _+(s.contexts i).inUse.toNat=_+1 at hcount
  rw [← h.active,hfree,Bool.toNat_false,Nat.add_zero] at hcount
  omega

/-- Within the limits no fragment panics. -/
theorem Sound.spared (h : Sound maxFragments s) (hctx : maxContexts ≤ 255) (hfrag : maxFragments ≤ windowBits)
    {fragBytes : Nat} (hbytes : fragBytes ≤ maxMessage) (msgId : UInt64) (index total : Nat) :
    Spared maxFragments s msgId index total fragBytes := by
  have hword : maxMessage+maxMessage < wordLimit := by decide
  intro hwell
  have hi : index < windowBits := by
    rw [Malformed] at hwell
    omega
  constructor
  · intro c hc _
    obtain ⟨i,rfl,hin,_⟩ := hc
    have hheld := (h.fits i hin).bytes
    exact ⟨hi,fun _ => by omega⟩
  · intro _ hfree
    obtain ⟨i,hfree⟩ := hfree
    have hlt := h.active_lt hfree
    exact ⟨hi,by omega,by omega⟩

theorem Sound.next (h : Sound maxFragments s) (hctx : maxContexts ≤ 255) (hfrag : maxFragments ≤ windowBits) {call : Call}
    (hcall : Bounded call) : s.act maxFragments call=some (s.next maxFragments call) ∧
      Sound maxFragments (s.next maxFragments call) := by
  have hsome : ∃s',s.act maxFragments call=some s' := by
    cases call with
    | ingest nowMs msgId index total fragBytes =>
      obtain ⟨e,s',hrun,_⟩ := h.ingest nowMs (h.spared hctx hfrag hcall msgId index total)
      exact ⟨s',by rw [PeerReassembler.act,hrun]; rfl⟩
    | evictExpired nowMs =>
      obtain ⟨s',hrun,_⟩ := h.evictExpired nowMs
      exact ⟨s',hrun⟩
  obtain ⟨s',hact⟩ := hsome
  rw [PeerReassembler.next,hact]
  exact ⟨rfl,h.act hact⟩

theorem Sound.runs_some (h : Sound maxFragments s) (hctx : maxContexts ≤ 255) (hfrag : maxFragments ≤ windowBits)
    {calls : List Call} (hcalls : ∀call∈calls,Bounded call) : ∃s',s.runs maxFragments calls=some s' := by
  induction calls generalizing s with
  | nil => exact ⟨s,rfl⟩
  | cons call calls ih =>
    obtain ⟨hact,hnext⟩ := h.next hctx hfrag (hcalls call List.mem_cons_self)
    obtain ⟨s',hrun⟩ := ih hnext (fun c hc => hcalls c (List.mem_cons_of_mem _ hc))
    refine ⟨s',?_⟩
    rw [PeerReassembler.runs,List.foldlM_cons,hact]
    exact hrun

theorem lacks_iff {msgId : UInt64} : s.Lacks msgId ↔ ∀c,¬s.Holds msgId c := by
  constructor
  · intro h c hc
    obtain ⟨i,rfl,hin,hid⟩ := hc
    exact h i hin hid
  · intro h i hin hid
    exact h _ ⟨i,rfl,hin,hid⟩

/-- The context of a message has seen just the fragments `got`; there is none
where `got` is empty. -/
structure Collected (msgId : UInt64) (total : Nat) (size : Nat → Nat) (s : PeerReassembler maxContexts)
    (got : Finset Nat) : Prop where
  within : got⊆Finset.range total
  held : ∀c,s.Holds msgId c → c.total=total ∧ seenSet c.seen=got ∧ c.bytes=∑i∈got,size i
  empty : s.Lacks msgId ↔ got=∅

variable {msgId : UInt64} {total : Nat} {size : Nat → Nat} {got : Finset Nat}

theorem Collected.congr {s' : PeerReassembler maxContexts} (h : Collected msgId total size s got)
    (hsame : ∀d,s'.Holds msgId d ↔ s.Holds msgId d) : Collected msgId total size s' got where
  within := h.within
  held c hc := h.held c ((hsame c).mp hc)
  empty := by
    rw [← h.empty,lacks_iff,lacks_iff]
    exact forall_congr' (fun d => not_congr (hsame d))

/-- The context that a fragment of the message finds. -/
theorem Collected.found (h : Collected msgId total size s got) (hs : Sound maxFragments s) (nowMs : UInt64) {c : Context}
    (hc : (s.Holds msgId c ∧ c.total=total) ∨ ((∀d,¬s.Holds msgId d) ∧ c=Context.opened nowMs msgId total)) :
    c.inUse=true ∧ c.total=total ∧ seenSet c.seen=got ∧ c.bytes=∑i∈got,size i ∧ c.received=got.card := by
  obtain ⟨hc,ht⟩ | ⟨hnone,rfl⟩ := hc
  · obtain ⟨_,hseen,hbytes⟩ := h.held c hc
    obtain ⟨i,rfl,hin,_⟩ := hc
    exact ⟨hin,ht,hseen,hbytes,hseen ▸ (hs.fits i hin).received⟩
  · obtain rfl := h.empty.mp (lacks_iff.mpr hnone)
    exact ⟨rfl,rfl,seenSet_new,rfl,rfl⟩

theorem Collected.drop {s' : PeerReassembler maxContexts} (hgone : ∀d,¬s'.Holds msgId d) :
    Collected msgId total size s' ∅ where
  within := Finset.empty_subset _
  held c hc := absurd hc (hgone c)
  empty := iff_of_true (lacks_iff.mpr hgone) rfl

theorem Collected.keep {s' : PeerReassembler maxContexts} {c : Context} (hid : ∀d,s'.Holds msgId d ↔ d=c ∧ c.inUse=true)
    (hin : c.inUse=true) (hwithin : got⊆Finset.range total) (ht : c.total=total) (hseen : seenSet c.seen=got)
    (hbytes : c.bytes=∑i∈got,size i) (hne : got≠∅) : Collected msgId total size s' got where
  within := hwithin
  held d hd := by
    obtain ⟨rfl,_⟩ := (hid d).mp hd
    exact ⟨ht,hseen,hbytes⟩
  empty := by
    refine iff_of_false ?_ hne
    rw [lacks_iff]
    intro hnone
    exact hnone c ((hid c).mpr ⟨rfl,hin⟩)

/-- A fragment that is new to the collection fits into the message. -/
theorem Collected.sum_le (h : Collected msgId total size s got) {index : Nat} (hmem : index∈Finset.range total)
    (hnew : index∉got) : (∑i∈got,size i)+size index ≤ ∑i∈Finset.range total,size i := by
  rw [Nat.add_comm,← Finset.sum_insert hnew]
  exact Finset.sum_le_sum_of_subset (Finset.insert_subset hmem h.within)

/-- A fragment of the message does what it does to the collection. -/
theorem Collected.ingest (h : Collected msgId total size s got) (hs : Sound maxFragments s) (hctx : maxContexts ≤ 255)
    (hfrag : maxFragments ≤ windowBits) (ht : total ≤ maxFragments) (hsize : ∑i∈Finset.range total,size i ≤ maxMessage)
    (nowMs : UInt64) {index fragBytes : Nat} (hbytes : fragBytes ≤ maxMessage)
    (hd : Delivers msgId total size s (.ingest nowMs msgId index total fragBytes)) :
    ∃s',s.ingest maxFragments nowMs msgId index total fragBytes=
        some (eventFor (Collector.step (Finset.range total) got index).1,s') ∧
      Collected msgId total size s' (Collector.step (Finset.range total) got index).2 := by
  obtain ⟨⟨hlt,_,hfragBytes⟩,hslot,hroom⟩ := hd rfl
  have hmem : index∈Finset.range total := Finset.mem_range.mpr hlt
  obtain ⟨e,s',hrun,_,hi⟩ := hs.ingest nowMs (hs.spared hctx hfrag hbytes msgId index total)
  rw [hrun]
  cases hi with
  | refused hno =>
    obtain hbad | ⟨hnone,hfull⟩ := hno
    · rw [Malformed] at hbad
      omega
    · obtain ⟨i,hfree⟩ := hslot (lacks_iff.mpr hnone)
      rw [hfull i] at hfree
      cases hfree
  | disagreed hc hne _ _ => exact absurd (h.held _ hc).1 hne
  | received _ hc hr hid _ =>
    obtain ⟨hin,hct,hseen,hcb,hrec⟩ := h.found hs nowMs hc
    cases hr with
    | duplicate hold =>
      rw [hseen] at hold
      rw [Collector.step_again hold]
      exact ⟨s',rfl,Collected.keep hid hin h.within hct hseen hcb (Finset.ne_empty_of_mem hold)⟩
    | dropped hnew hover =>
      rw [hseen] at hnew
      have hsum := h.sum_le hmem hnew
      have hfit := hroom (by
        intro i hiu hid
        obtain ⟨_,hsi,_⟩ := h.held _ ⟨i,rfl,hiu,hid⟩
        have hout : index∉seenSet (s.contexts i).seen := hsi ▸ hnew
        rw [mem_seenSet,not_and] at hout
        simpa using hout (by omega))
      rw [hcb,hfragBytes] at hover
      rw [hfragBytes] at hfit
      omega
    | complete hnew hlast =>
      rw [hseen] at hnew
      have hcard : (insert index got).card=got.card+1 := Finset.card_insert_of_notMem hnew
      have hwhole : insert index got=Finset.range total := by
        apply Finset.eq_of_subset_of_card_le (Finset.insert_subset hmem h.within)
        rw [hcard,Finset.card_range]
        omega
      rw [Collector.step_whole hnew hwhole]
      exact ⟨s',rfl,Collected.drop (fun d hd => Bool.false_ne_true ((hid d).mp hd).2)⟩
    | more hnew hmore =>
      rw [hseen] at hnew
      have hcard : (insert index got).card=got.card+1 := Finset.card_insert_of_notMem hnew
      have hpart : insert index got≠Finset.range total := by
        intro he
        rw [he,Finset.card_range] at hcard
        omega
      rw [Collector.step_part hnew hpart]
      refine ⟨s',rfl,Collected.keep hid hin (Finset.insert_subset hmem h.within) hct ?_ ?_ (Finset.insert_ne_empty _ _)⟩
      · rw [seenSet_take nowMs fragBytes (by omega),hseen]
      · rw [Finset.sum_insert hnew,Nat.add_comm,← hcb,← hfragBytes]
        rfl

/-- A fragment of another message leaves the collection as it is. -/
theorem Collected.other (h : Collected msgId total size s got) (hs : Sound maxFragments s) (hctx : maxContexts ≤ 255)
    (hfrag : maxFragments ≤ windowBits) (nowMs : UInt64) {id : UInt64} (hne : id≠msgId) {index total' fragBytes : Nat}
    (hbytes : fragBytes ≤ maxMessage) {s' : PeerReassembler maxContexts} {e : PeerEvent}
    (hrun : s.ingest maxFragments nowMs id index total' fragBytes=some (e,s')) : Collected msgId total size s' got := by
  obtain ⟨e',s₁,hrun',_,hi⟩ := hs.ingest nowMs (hs.spared hctx hfrag hbytes id index total')
  obtain ⟨rfl,rfl⟩ := Prod.mk.inj (Option.some.inj (hrun'.symm.trans hrun))
  cases hi with
  | refused _ => exact h
  | disagreed _ _ _ hframe => exact h.congr (hframe msgId hne.symm)
  | received _ _ _ _ hframe => exact h.congr (hframe msgId hne.symm)

/-- A sweep that does not time the message out leaves the collection as it is. -/
theorem Collected.evict (h : Collected msgId total size s got) (hs : Sound maxFragments s) {nowMs : UInt64}
    (hd : Delivers msgId total size s (.evictExpired nowMs)) {s' : PeerReassembler maxContexts}
    (hrun : s.evictExpired nowMs=some s') : Collected msgId total size s' got := by
  obtain ⟨s₁,hrun',_,hat⟩ := hs.evictExpired nowMs
  obtain rfl := Option.some.inj (hrun'.symm.trans hrun)
  apply h.congr
  intro d
  constructor
  · intro hw
    obtain ⟨i,rfl,hin,hid⟩ := hw
    rw [hat i,Context.swept] at hin hid ⊢
    by_cases hsweep : ((s.contexts i).inUse && (s.contexts i).expired nowMs)=true
    · rw [if_pos hsweep] at hin
      cases hin
    · rw [if_neg hsweep] at hin hid ⊢
      exact ⟨i,rfl,hin,hid⟩
  · intro hw
    obtain ⟨i,rfl,hin,hid⟩ := hw
    refine ⟨i,?_,hin,hid⟩
    rw [hat i,Context.swept,hd i hin hid,Bool.and_false]
    rfl

/-- The events of a message are the answers to the collection of its fragments. -/
theorem Collected.heard (h : Collected msgId total size s got) (hs : Sound maxFragments s) (hctx : maxContexts ≤ 255)
    (hfrag : maxFragments ≤ windowBits) (ht : total ≤ maxFragments) (hsize : ∑i∈Finset.range total,size i ≤ maxMessage)
    {calls : List Call} (hcalls : ∀call∈calls,Bounded call)
    (hm : Meets (PeerReassembler.next maxFragments) (Delivers msgId total size) s calls) :
    Reassembly.heard maxFragments msgId s calls=
      (answers (Collector.step (Finset.range total)) got (sent msgId calls)).map eventFor := by
  induction calls generalizing s got with
  | nil => rfl
  | cons call calls ih =>
    have hcall := hcalls call List.mem_cons_self
    have hrest : ∀c∈calls,Bounded c := fun c hc => hcalls c (List.mem_cons_of_mem _ hc)
    obtain ⟨hact,hnext⟩ := hs.next hctx hfrag hcall
    obtain ⟨hd,hm⟩ := hm
    rw [Reassembly.heard,sent,List.filterMap_cons]
    cases call with
    | ingest nowMs id index total' fragBytes =>
      by_cases hid : id=msgId
      · subst hid
        obtain ⟨⟨_,rfl,_⟩,_⟩ := hd rfl
        obtain ⟨s',hrun,hcol⟩ := h.ingest hs hctx hfrag ht hsize nowMs hcall hd
        rw [PeerReassembler.act,hrun] at hact
        rw [← Option.some.inj hact] at hnext hm ⊢
        have hlater := ih hcol hnext hrest hm
        simp only [eventOf,sentIndex,if_pos,hrun,Option.map_some,Option.toList_some,List.singleton_append,answers,
          List.map_cons]
        rw [hlater]
        rfl
      · rw [PeerReassembler.act,Option.map_eq_some_iff] at hact
        obtain ⟨r,hrun,hr⟩ := hact
        have hcol := h.other hs hctx hfrag nowMs hid hcall hrun
        rw [hr] at hcol
        have hlater := ih hcol hnext hrest hm
        simp only [eventOf,sentIndex,if_neg hid,Option.toList_none,List.nil_append]
        exact hlater
    | evictExpired nowMs =>
      have hlater := ih (h.evict hs hd hact) hnext hrest hm
      simp only [eventOf,sentIndex,Option.toList_none,List.nil_append]
      exact hlater

end Delivery

theorem reassembly_delivery (maxContexts maxFragments : Nat) (hctx : maxContexts ≤ 255) (hfrag : maxFragments ≤ windowBits)
    (calls : List Call) (hcalls : ∀call∈calls,Bounded call) :
    ∃s,(PeerReassembler.new maxContexts).runs maxFragments calls=some s ∧ Sound maxFragments s ∧
      ∀msgId total size,total ≤ maxFragments → ∑i∈Finset.range total,size i ≤ maxMessage → s.Lacks msgId →
      ∀more : List Call,(∀call∈more,Bounded call) →
        Meets (PeerReassembler.next maxFragments) (Delivers msgId total size) s more →
        heard maxFragments msgId s more=
          (answers (Collector.step (Finset.range total)) ∅ (sent msgId more)).map eventFor ∧
        ∀before last,sent msgId more=before++[last] → last∉before → insert last before.toFinset=Finset.range total →
          ∃events,heard maxFragments msgId s more=events++[.Complete] ∧ .Complete∉events := by
  obtain ⟨s,hrun⟩ := (sound_new maxContexts).runs_some hctx hfrag hcalls
  have hs : Sound maxFragments s := (sound_new maxContexts).runs hrun
  refine ⟨s,hrun,hs,?_⟩
  intro msgId total size ht hsize hlacks more hmore hm
  have hcol : Collected msgId total size s ∅ :=
    ⟨Finset.empty_subset _,fun c hc => absurd hc (lacks_iff.mp hlacks c),iff_of_true hlacks rfl⟩
  have hheard := hcol.heard hs hctx hfrag ht hsize hmore hm
  refine ⟨hheard,?_⟩
  intro before last hsent hnew hwhole
  have hall : insert last (∅∪before.toFinset)=Finset.range total := by rw [Finset.empty_union,hwhole]
  obtain ⟨hanswers,hno,_⟩ := Collector.answers_complete before hnew (Finset.notMem_empty last) hall
  refine ⟨(answers (Collector.step (Finset.range total)) ∅ before).map eventFor,?_,?_⟩
  · rw [hheard,hsent,hanswers,List.map_append]
    rfl
  · intro hmem
    obtain ⟨a,ha,he⟩ := List.mem_map.mp hmem
    cases a with
    | part => cases he
    | again => cases he
    | whole => exact hno ha

/-- Two fragments, the last one first, between those of another message. -/
def reversedCalls : List Call :=
  [.ingest 5 7 1 2 10,.ingest 6 9 0 3 40,.ingest 7 7 1 2 10,.evictExpired 8,.ingest 9 7 0 2 20]

theorem reassembly_delivery_sample : (8 : Nat) ≤ 255 ∧ (1024 : Nat) ≤ windowBits ∧
    heard 1024 7 (PeerReassembler.new 8) reversedCalls=[.Partial,.Duplicate,.Complete] := by
  refine ⟨by decide,by decide,?_⟩
  obtain ⟨s,hrun,_,hdelivery⟩ := reassembly_delivery 8 1024 (by decide) (by decide) [] (by decide)
  obtain rfl := Option.some.inj hrun
  have h := (hdelivery 7 2 (fun i => if i=0 then 20 else 10) (by decide) (by decide) (by decide) reversedCalls
    (by decide) (by decide)).1
  rw [h]
  decide

/-- With a fragment of each kind twice, the message is complete twice. -/
theorem late_duplicates_complete_twice :
    sent 7 [.ingest 5 7 0 2 10,.ingest 6 7 1 2 10,.ingest 7 7 1 2 10,.ingest 8 7 0 2 10]=[0,1,1,0] ∧
    heard 1024 7 (PeerReassembler.new 8)
      [.ingest 5 7 0 2 10,.ingest 6 7 1 2 10,.ingest 7 7 1 2 10,.ingest 8 7 0 2 10]=
      [.Partial,.Complete,.Partial,.Complete] := by
  decide

end Bolina.Reassembly
