import Bolina.Framework.GuardedRun
import Bolina.Transport.Reassembly

namespace Bolina.Reassembly

open GuardedRun Panic Slots
open Evidence (Words windowBits windowWords setBit)

def usedBytes (c : Context) : Nat := if c.inUse then c.bytes else 0

/-- A context in use, with some fragment missing. -/
structure Fits (maxFragments : Nat) (c : Context) : Prop where
  received : c.received=(seenSet c.seen).card
  missing : c.received < c.total
  total : c.total ≤ maxFragments
  seen : ∀i∈seenSet c.seen,i < c.total
  bytes : c.bytes ≤ maxMessage

/-- The counters are those of the contexts in use, of which no two are of one message. -/
structure Sound {maxContexts : Nat} (maxFragments : Nat) (s : PeerReassembler maxContexts) : Prop where
  active : s.active=total (fun c => c.inUse.toNat) s.contexts
  bytesUsed : s.bytesUsed=total usedBytes s.contexts
  memory : s.bytesUsed ≤ memoryPerPeer
  fits : ∀i,(s.contexts i).inUse=true → Fits maxFragments (s.contexts i)
  distinct : ∀i j,(s.contexts i).inUse=true → (s.contexts j).inUse=true →
    (s.contexts i).msgId=(s.contexts j).msgId → i=j

section Sound

variable {maxContexts maxFragments : Nat} {s : PeerReassembler maxContexts}

theorem sound_new (maxContexts : Nat) : Sound maxFragments (PeerReassembler.new maxContexts) where
  active := (total_eq_zero _ _ (fun _ => rfl)).symm
  bytesUsed := (total_eq_zero _ _ (fun _ => rfl)).symm
  memory := Nat.zero_le _
  fits _ h := absurd h Bool.false_ne_true
  distinct _ _ h := absurd h Bool.false_ne_true

/-- A state with one context and the counters written over. -/
def PeerReassembler.put (s : PeerReassembler maxContexts) (idx : Fin maxContexts) (c : Context) (active used : Nat) :
    PeerReassembler maxContexts := ⟨Function.update s.contexts idx c,active,used⟩

section Put

variable {idx j : Fin maxContexts} {c : Context} {active used : Nat}

@[simp] theorem put_active : (s.put idx c active used).active=active := rfl

@[simp] theorem put_bytesUsed : (s.put idx c active used).bytesUsed=used := rfl

@[simp] theorem put_self : (s.put idx c active used).contexts idx=c := by
  simp [PeerReassembler.put]

theorem put_other (h : j≠idx) : (s.put idx c active used).contexts j=s.contexts j := by
  simp [PeerReassembler.put,h]

theorem put_put (c' : Context) (active' used' : Nat) :
    (s.put idx c active used).put idx c' active' used'=s.put idx c' active' used' := by
  simp [PeerReassembler.put]

theorem put_same : s.put idx (s.contexts idx) s.active s.bytesUsed=s := by
  simp [PeerReassembler.put]

/-- The counters stay right when they take the difference. -/
theorem Sound.put (h : Sound maxFragments s) (hactive : active+(s.contexts idx).inUse.toNat=s.active+c.inUse.toNat)
    (hused : used+usedBytes (s.contexts idx)=s.bytesUsed+usedBytes c) (hmemory : used ≤ memoryPerPeer)
    (hfits : c.inUse=true → Fits maxFragments c)
    (hid : c.inUse=true → ∀j,j≠idx → (s.contexts j).inUse=true → (s.contexts j).msgId≠c.msgId) :
    Sound maxFragments (s.put idx c active used) := by
  have hcount := total_update (fun c => c.inUse.toNat) s.contexts idx c
  have hbytes := total_update usedBytes s.contexts idx c
  refine ⟨?_,?_,hmemory,?_,?_⟩
  · have hold := h.active
    change active=total (fun c => c.inUse.toNat) (Function.update s.contexts idx c)
    omega
  · have hold := h.bytesUsed
    change used=total usedBytes (Function.update s.contexts idx c)
    omega
  · intro i
    by_cases hi : i=idx
    · rw [hi,put_self]
      exact hfits
    · rw [put_other hi]
      exact h.fits i
  · intro i j
    by_cases hi : i=idx
    · by_cases hj : j=idx
      · intro _ _ _
        rw [hi,hj]
      · rw [hi,put_self,put_other hj]
        intro hc hin he
        exact absurd he.symm (hid hc j hj hin)
    · by_cases hj : j=idx
      · rw [hj,put_self,put_other hi]
        intro hin hc he
        exact absurd he (hid hc i hi hin)
      · rw [put_other hi,put_other hj]
        exact h.distinct i j

end Put

theorem usedBytes_of_inUse {c : Context} (h : c.inUse=true) : usedBytes c=c.bytes := if_pos h

theorem Sound.active_pos (h : Sound maxFragments s) {idx : Fin maxContexts} (hin : (s.contexts idx).inUse=true) :
    1 ≤ s.active := by
  have hle := le_total (fun c => c.inUse.toNat) s.contexts idx
  rw [← h.active] at hle
  rwa [hin] at hle

theorem Sound.bytes_le (h : Sound maxFragments s) {idx : Fin maxContexts} (hin : (s.contexts idx).inUse=true) :
    (s.contexts idx).bytes ≤ s.bytesUsed := by
  have hle := le_total usedBytes s.contexts idx
  rwa [← h.bytesUsed,usedBytes_of_inUse hin] at hle

theorem freeContext_eq (s : PeerReassembler maxContexts) {idx : Fin maxContexts} (hin : (s.contexts idx).inUse=true)
    (hpos : 1 ≤ s.active) :
    s.freeContext idx=
      some (s.put idx { s.contexts idx with inUse := false } (s.active-1) (s.bytesUsed-(s.contexts idx).bytes)) := by
  simp [PeerReassembler.freeContext,hin,sub_eq hpos,PeerReassembler.put]

/-- A context that is given back, with all that it holds. -/
theorem Sound.release (h : Sound maxFragments s) {idx : Fin maxContexts} (hin : (s.contexts idx).inUse=true)
    {c : Context} (hc : c.inUse=false) :
    Sound maxFragments (s.put idx c (s.active-1) (s.bytesUsed-(s.contexts idx).bytes)) := by
  have hbytes := h.bytes_le hin
  have hpos := h.active_pos hin
  have hout : usedBytes c=0 := by simp [usedBytes,hc]
  refine h.put ?_ ?_ ((Nat.sub_le _ _).trans h.memory) ?_ ?_
  · rw [hin,hc]
    exact Nat.sub_add_cancel hpos
  · rw [usedBytes_of_inUse hin,hout]
    exact Nat.sub_add_cancel hbytes
  · intro he
    exact absurd he (by simp [hc])
  · intro he
    exact absurd he (by simp [hc])

theorem Sound.free (h : Sound maxFragments s) {idx : Fin maxContexts} (hin : (s.contexts idx).inUse=true) :
    ∃active used,s.freeContext idx=some (s.put idx { s.contexts idx with inUse := false } active used) ∧
      Sound maxFragments (s.put idx { s.contexts idx with inUse := false } active used) :=
  ⟨_,_,freeContext_eq s hin (h.active_pos hin),h.release hin rfl⟩

/-- A context that takes a fragment in. -/
def Context.take (c : Context) (nowMs : UInt64) (index fragBytes : Nat) : Context :=
  { c with
    seen := setBit c.seen (index/64) ((1 : UInt64)<<<UInt64.ofNat (index%64))
    received := c.received+1
    bytes := c.bytes+fragBytes
    updatedMs := nowMs }

/-- What becomes of a context when a fragment comes, and what is answered. -/
inductive Received (c : Context) (bytesUsed : Nat) (nowMs : UInt64) (index fragBytes : Nat) : PeerEvent → Context → Prop
  | duplicate (h : index∈seenSet c.seen) : Received c bytesUsed nowMs index fragBytes .Duplicate c
  | dropped (h : index∉seenSet c.seen)
      (hover : maxMessage < c.bytes+fragBytes ∨ memoryPerPeer < bytesUsed+fragBytes) :
      Received c bytesUsed nowMs index fragBytes .MessageDropped { c with inUse := false }
  | complete (h : index∉seenSet c.seen) (hlast : c.total ≤ c.received+1) :
      Received c bytesUsed nowMs index fragBytes .Complete { c.take nowMs index fragBytes with inUse := false }
  | more (h : index∉seenSet c.seen) (hmore : c.received+1 < c.total) :
      Received c bytesUsed nowMs index fragBytes .Partial (c.take nowMs index fragBytes)

theorem Received.msgId {c c' : Context} {used : Nat} {nowMs : UInt64} {index fragBytes : Nat} {e : PeerEvent}
    (h : Received c used nowMs index fragBytes e c') : c'.msgId=c.msgId := by
  cases h <;> rfl

theorem seenSet_take {c : Context} (nowMs : UInt64) {index : Nat} (fragBytes : Nat) (hi : index < windowBits) :
    seenSet (c.take nowMs index fragBytes).seen=insert index (seenSet c.seen) := seenSet_setBit c.seen hi

theorem card_seenSet_le (seen : Words) : (seenSet seen).card ≤ windowBits := by
  have h := Finset.card_filter_le (Finset.range windowBits) (fun i => Evidence.bitAt seen i=true)
  rwa [Finset.card_range] at h

theorem Fits.take {c : Context} (h : Fits maxFragments c) (nowMs : UInt64) {index fragBytes : Nat}
    (hi : index < windowBits) (hnew : index∉seenSet c.seen) (htotal : index < c.total)
    (hbytes : c.bytes+fragBytes ≤ maxMessage) (hmore : c.received+1 < c.total) :
    Fits maxFragments (c.take nowMs index fragBytes) where
  received := by
    rw [seenSet_take nowMs fragBytes hi,Finset.card_insert_of_notMem hnew,← h.received]
    rfl
  missing := hmore
  total := h.total
  seen i hmem := by
    rw [seenSet_take nowMs fragBytes hi,Finset.mem_insert] at hmem
    exact hmem.elim (fun he => he ▸ htotal) (h.seen i)
  bytes := hbytes

/-- A fragment past the map, or past the end of the address space, panics. -/
theorem receive_none (s : PeerReassembler maxContexts) (idx : Fin maxContexts) (nowMs : UInt64) {index fragBytes : Nat}
    (h : windowBits ≤ index ∨ (index∉seenSet (s.contexts idx).seen ∧ wordLimit ≤ (s.contexts idx).bytes+fragBytes)) :
    s.receive idx nowMs index fragBytes=none := by
  by_cases hi : windowBits ≤ index
  · simp [PeerReassembler.receive,seen_none _ hi]
  · obtain hfar | ⟨hnew,hover⟩ := h
    · exact absurd hfar hi
    · obtain ⟨w,hw,hbit⟩ := seen_some (s.contexts idx).seen (not_le.mp hi)
      have hadd : add (s.contexts idx).bytes fragBytes=none := if_neg (not_lt.mpr hover)
      simp only [PeerReassembler.receive,hw,Option.bind_eq_bind,Option.bind_some]
      rw [if_neg (hbit.not.mpr hnew),hadd]
      rfl

/-- A context given back with its last fragment: the fragment's bytes cancel. -/
theorem Sound.freeContext_take (h : Sound maxFragments s) {idx : Fin maxContexts} (hin : (s.contexts idx).inUse=true)
    (nowMs : UInt64) (index fragBytes : Nat) :
    (s.put idx ((s.contexts idx).take nowMs index fragBytes) s.active (s.bytesUsed+fragBytes)).freeContext idx=
      some (s.put idx { (s.contexts idx).take nowMs index fragBytes with inUse := false } (s.active-1)
        (s.bytesUsed-(s.contexts idx).bytes)) := by
  have hback : s.bytesUsed+fragBytes-((s.contexts idx).bytes+fragBytes)=s.bytesUsed-(s.contexts idx).bytes :=
    Nat.add_sub_add_right _ _ _
  have htake : ((s.put idx ((s.contexts idx).take nowMs index fragBytes) s.active
      (s.bytesUsed+fragBytes)).contexts idx).inUse=true := by
    rw [put_self]
    exact hin
  refine (freeContext_eq _ htake (h.active_pos hin)).trans ?_
  rw [put_put,put_self,put_bytesUsed,put_active,← hback]
  rfl

/-- What a fragment does that is within the map and within the address space. -/
theorem Sound.receive (h : Sound maxFragments s) {idx : Fin maxContexts} (hin : (s.contexts idx).inUse=true)
    (nowMs : UInt64) {index fragBytes : Nat} (hi : index < windowBits) (htotal : index < (s.contexts idx).total)
    (hadd : index∉seenSet (s.contexts idx).seen → (s.contexts idx).bytes+fragBytes < wordLimit) :
    ∃e c active used,s.receive idx nowMs index fragBytes=some (e,s.put idx c active used) ∧
      Sound maxFragments (s.put idx c active used) ∧
      Received (s.contexts idx) s.bytesUsed nowMs index fragBytes e c := by
  have hfits := h.fits idx hin
  obtain ⟨w,hw,hbit⟩ := seen_some (s.contexts idx).seen hi
  simp only [PeerReassembler.receive,hw,Option.bind_eq_bind,Option.bind_some]
  by_cases hnew : index∈seenSet (s.contexts idx).seen
  · rw [if_pos (hbit.mpr hnew)]
    refine ⟨_,s.contexts idx,s.active,s.bytesUsed,?_,?_,.duplicate hnew⟩
    · rw [put_same]
      rfl
    · rw [put_same]
      exact h
  · rw [if_neg (hbit.not.mpr hnew),add_eq (hadd hnew),Option.bind_some]
    obtain ⟨active,used,hfree,hsound⟩ := h.free hin
    by_cases hlong : maxMessage < (s.contexts idx).bytes+fragBytes
    · rw [if_pos hlong,hfree,Option.bind_some]
      exact ⟨_,_,active,used,rfl,hsound,.dropped hnew (.inl hlong)⟩
    · have hused : s.bytesUsed+fragBytes < wordLimit := by
        have hm := h.memory
        rw [memoryPerPeer] at hm
        rw [maxMessage] at hlong
        rw [wordLimit]
        omega
      rw [if_neg hlong,add_eq hused,Option.bind_some]
      by_cases hroom : memoryPerPeer < s.bytesUsed+fragBytes
      · rw [if_pos hroom,hfree,Option.bind_some]
        exact ⟨_,_,active,used,rfl,hsound,.dropped hnew (.inr hroom)⟩
      · have hcount : (s.contexts idx).received+1 < 2^16 := by
          have hle := card_seenSet_le (s.contexts idx).seen
          rw [← hfits.received,windowBits] at hle
          omega
        rw [if_neg hroom,addBelow_eq hcount,Option.bind_some]
        by_cases hlast : (s.contexts idx).total ≤ (s.contexts idx).received+1
        · refine ⟨.Complete,_,_,_,?_,h.release hin rfl,.complete hnew hlast⟩
          rw [if_pos hlast]
          exact congrArg (Option.bind · _) (h.freeContext_take hin nowMs index fragBytes)
        · refine ⟨.Partial,(s.contexts idx).take nowMs index fragBytes,s.active,_,if_neg hlast,
            h.put rfl ?_ (not_lt.mp hroom) ?_ ?_,.more hnew (not_le.mp hlast)⟩
          · rw [usedBytes_of_inUse hin,usedBytes_of_inUse (c := (s.contexts idx).take nowMs index fragBytes) hin,
              Nat.add_assoc,Nat.add_comm fragBytes]
            rfl
          · intro _
            exact hfits.take nowMs hi hnew htotal (not_lt.mp hlong) (not_le.mp hlast)
          · intro _ j hj hjin he
            exact hj (h.distinct j idx hjin hin he)

/-- A context in use for a message. -/
def PeerReassembler.Holds (s : PeerReassembler maxContexts) (msgId : UInt64) (c : Context) : Prop :=
  ∃i,s.contexts i=c ∧ c.inUse=true ∧ c.msgId=msgId

theorem Sound.holds_unique (h : Sound maxFragments s) {msgId : UInt64} {c d : Context} (hc : s.Holds msgId c)
    (hd : s.Holds msgId d) : c=d := by
  obtain ⟨i,rfl,hi,hci⟩ := hc
  obtain ⟨j,rfl,hj,hdj⟩ := hd
  rw [h.distinct i j hi hj (hci.trans hdj.symm)]

/-- The message of a context that is written over, and the messages that stay. -/
theorem holds_put {idx : Fin maxContexts} {c : Context} (active used : Nat) {msgId : UInt64}
    (hold : (s.contexts idx).inUse=true → (s.contexts idx).msgId=msgId) (hc : c.msgId=msgId)
    (hothers : ∀j,j≠idx → (s.contexts j).inUse=true → (s.contexts j).msgId≠msgId) :
    (∀d,(s.put idx c active used).Holds msgId d ↔ d=c ∧ c.inUse=true) ∧
    ∀m,m≠msgId → ∀d,(s.put idx c active used).Holds m d ↔ s.Holds m d := by
  constructor
  · intro d
    constructor
    · intro h
      obtain ⟨i,rfl,hin,hid⟩ := h
      by_cases hi : i=idx
      · rw [hi,put_self] at hin ⊢
        exact ⟨rfl,hin⟩
      · rw [put_other hi] at hin hid
        exact absurd hid (hothers i hi hin)
    · intro h
      obtain ⟨rfl,hin⟩ := h
      exact ⟨idx,put_self,hin,hc⟩
  · intro m hm d
    constructor
    · intro h
      obtain ⟨i,rfl,hin,hid⟩ := h
      by_cases hi : i=idx
      · rw [hi,put_self] at hid
        exact absurd (hid.symm.trans hc) hm
      · rw [put_other hi] at hin hid ⊢
        exact ⟨i,rfl,hin,hid⟩
    · intro h
      obtain ⟨i,rfl,hin,hid⟩ := h
      by_cases hi : i=idx
      · rw [hi] at hin hid
        exact absurd (hid.symm.trans (hold hin)) hm
      · exact ⟨i,put_other hi,hin,hid⟩

def Malformed (maxFragments index total : Nat) : Prop := total=0 ∨ total ≤ index ∨ maxFragments < total

/-- A context as the first fragment of a message finds it. -/
def Context.opened (nowMs msgId : UInt64) (total : Nat) : Context :=
  ⟨msgId,total,0,0,nowMs,true,Vector.replicate windowWords 0⟩

/-- The fragment stays within the map, the count and the address space. -/
def Spared (maxFragments : Nat) (s : PeerReassembler maxContexts) (msgId : UInt64) (index total fragBytes : Nat) : Prop :=
  ¬Malformed maxFragments index total →
    (∀c,s.Holds msgId c → c.total=total →
      index < windowBits ∧ (index∉seenSet c.seen → c.bytes+fragBytes < wordLimit)) ∧
    ((∀c,¬s.Holds msgId c) → (∃i,(s.contexts i).inUse=false) →
      index < windowBits ∧ s.active+1 < 2^8 ∧ fragBytes < wordLimit)

/-- What a fragment does to its own message, and to no other. -/
inductive Ingested (maxFragments : Nat) (s : PeerReassembler maxContexts) (nowMs msgId : UInt64)
    (index total fragBytes : Nat) : PeerEvent → PeerReassembler maxContexts → Prop
  | refused (h : Malformed maxFragments index total ∨ ((∀c,¬s.Holds msgId c) ∧ ∀i,(s.contexts i).inUse=true)) :
      Ingested maxFragments s nowMs msgId index total fragBytes .MessageDropped s
  | disagreed {c : Context} {s' : PeerReassembler maxContexts} (hc : s.Holds msgId c) (ht : c.total≠total)
      (hgone : ∀d,¬s'.Holds msgId d) (hframe : ∀m,m≠msgId → ∀d,s'.Holds m d ↔ s.Holds m d) :
      Ingested maxFragments s nowMs msgId index total fragBytes .MessageDropped s'
  | received {c c' : Context} {e : PeerEvent} {s' : PeerReassembler maxContexts}
      (hwell : ¬Malformed maxFragments index total)
      (hc : (s.Holds msgId c ∧ c.total=total) ∨ ((∀d,¬s.Holds msgId d) ∧ c=Context.opened nowMs msgId total))
      (hr : Received c s.bytesUsed nowMs index fragBytes e c') (hid : ∀d,s'.Holds msgId d ↔ d=c' ∧ c'.inUse=true)
      (hframe : ∀m,m≠msgId → ∀d,s'.Holds m d ↔ s.Holds m d) :
      Ingested maxFragments s nowMs msgId index total fragBytes e s'

theorem fits_opened (nowMs msgId : UInt64) {total : Nat} (h0 : 0 < total) (hmax : total ≤ maxFragments) :
    Fits maxFragments (Context.opened nowMs msgId total) where
  received := by
    rw [Context.opened,seenSet_new]
    rfl
  missing := h0
  total := hmax
  seen i hi := by
    rw [Context.opened,seenSet_new] at hi
    exact absurd hi (Finset.notMem_empty i)
  bytes := Nat.zero_le _

/-- A free slot is taken for a message that has none. -/
theorem Sound.opened (h : Sound maxFragments s) {idx : Fin maxContexts} (hfree : (s.contexts idx).inUse=false)
    (nowMs msgId : UInt64) {total : Nat} (h0 : 0 < total) (hmax : total ≤ maxFragments)
    (hnone : ∀c,¬s.Holds msgId c) :
    Sound maxFragments (s.put idx (Context.opened nowMs msgId total) (s.active+1) s.bytesUsed) := by
  refine h.put ?_ ?_ h.memory (fun _ => fits_opened nowMs msgId h0 hmax) ?_
  · rw [hfree]
    rfl
  · simp [usedBytes,hfree,Context.opened]
  · intro _ j _ hin he
    exact hnone _ ⟨j,rfl,hin,he⟩

theorem find_holder (msgId : UInt64) :
    (∃idx,Fin.find? (fun i => (s.contexts i).inUse && (s.contexts i).msgId == msgId)=some idx ∧
      (s.contexts idx).inUse=true ∧ (s.contexts idx).msgId=msgId) ∨
    (Fin.find? (fun i => (s.contexts i).inUse && (s.contexts i).msgId == msgId)=none ∧ ∀c,¬s.Holds msgId c) := by
  cases hf : Fin.find? (fun i => (s.contexts i).inUse && (s.contexts i).msgId == msgId) with
  | some idx =>
    have hp := Fin.eq_true_of_find?_eq_some hf
    rw [Bool.and_eq_true,beq_iff_eq] at hp
    exact .inl ⟨idx,rfl,hp⟩
  | none =>
    refine .inr ⟨rfl,?_⟩
    intro c hc
    obtain ⟨i,rfl,hin,hid⟩ := hc
    have hp := Fin.eq_false_of_find?_eq_none hf i
    rw [hin,hid,beq_self_eq_true] at hp
    exact Bool.false_ne_true hp.symm

theorem find_free :
    (∃idx,Fin.find? (fun i => !(s.contexts i).inUse)=some idx ∧ (s.contexts idx).inUse=false) ∨
    (Fin.find? (fun i => !(s.contexts i).inUse)=none ∧ ∀i,(s.contexts i).inUse=true) := by
  cases hf : Fin.find? (fun i => !(s.contexts i).inUse) with
  | some idx =>
    have hp := Fin.eq_true_of_find?_eq_some hf
    exact .inl ⟨idx,rfl,by simpa using hp⟩
  | none =>
    refine .inr ⟨rfl,?_⟩
    intro i
    simpa using Fin.eq_false_of_find?_eq_none hf i

/-- A message is held once. -/
theorem Sound.others (h : Sound maxFragments s) {idx j : Fin maxContexts} (hin : (s.contexts idx).inUse=true)
    (hj : j≠idx) (hjin : (s.contexts j).inUse=true) : (s.contexts j).msgId≠(s.contexts idx).msgId :=
  fun he => hj (h.distinct j idx hjin hin he)

theorem ingest_malformed (nowMs msgId : UInt64) {index total : Nat} (fragBytes : Nat)
    (h : Malformed maxFragments index total) :
    s.ingest maxFragments nowMs msgId index total fragBytes=some (.MessageDropped,s) := if_pos h

/-- A fragment of a message that has a context. -/
theorem ingest_held (h : Sound maxFragments s) (nowMs : UInt64) {index total : Nat} (fragBytes : Nat)
    (hwell : ¬Malformed maxFragments index total) {idx : Fin maxContexts} (hin : (s.contexts idx).inUse=true) :
    s.ingest maxFragments nowMs (s.contexts idx).msgId index total fragBytes=
      if (s.contexts idx).total≠total then (s.freeContext idx).map (fun s' => (.MessageDropped,s'))
      else s.receive idx nowMs index fragBytes := by
  have hfind : Fin.find? (fun i => (s.contexts i).inUse && (s.contexts i).msgId == (s.contexts idx).msgId)=some idx := by
    apply find_unique
    · rw [hin,beq_self_eq_true]
      rfl
    · intro j hj
      rw [Bool.and_eq_true,beq_iff_eq] at hj
      exact h.distinct j idx hj.1 hin hj.2
  rw [Malformed] at hwell
  rw [PeerReassembler.ingest,if_neg hwell]
  simp only [hfind]
  split_ifs
  · cases s.freeContext idx <;> rfl
  · rfl

/-- A fragment of a message that has none. -/
theorem ingest_opens (nowMs msgId : UInt64) {index total : Nat} (fragBytes : Nat)
    (hwell : ¬Malformed maxFragments index total) (hnone : ∀c,¬s.Holds msgId c) {idx : Fin maxContexts}
    (hfree : Fin.find? (fun i => !(s.contexts i).inUse)=some idx) :
    s.ingest maxFragments nowMs msgId index total fragBytes=
      if s.active+1 < 2^8 then
        (s.put idx (Context.opened nowMs msgId total) (s.active+1) s.bytesUsed).receive idx nowMs index fragBytes
      else none := by
  obtain ⟨idx',_,hin,hid⟩ | ⟨hfind,_⟩ := find_holder (s := s) msgId
  · exact absurd ⟨idx',rfl,hin,hid⟩ (hnone _)
  · rw [Malformed] at hwell
    rw [PeerReassembler.ingest,if_neg hwell]
    simp only [hfind,hfree,addBelow]
    split_ifs <;> rfl

theorem ingest_full (nowMs msgId : UInt64) {index total : Nat} (fragBytes : Nat)
    (hwell : ¬Malformed maxFragments index total) (hnone : ∀c,¬s.Holds msgId c)
    (hfull : Fin.find? (fun i => !(s.contexts i).inUse)=none) :
    s.ingest maxFragments nowMs msgId index total fragBytes=some (.MessageDropped,s) := by
  obtain ⟨idx',_,hin,hid⟩ | ⟨hfind,_⟩ := find_holder (s := s) msgId
  · exact absurd ⟨idx',rfl,hin,hid⟩ (hnone _)
  · rw [Malformed] at hwell
    rw [PeerReassembler.ingest,if_neg hwell]
    simp only [hfind,hfull]
    rfl

/-- What a fragment does when it stays within the map, the count and the address space. -/
theorem Sound.ingest (h : Sound maxFragments s) (nowMs : UInt64) {msgId : UInt64} {index total fragBytes : Nat}
    (hs : Spared maxFragments s msgId index total fragBytes) :
    ∃e s',s.ingest maxFragments nowMs msgId index total fragBytes=some (e,s') ∧ Sound maxFragments s' ∧
      Ingested maxFragments s nowMs msgId index total fragBytes e s' := by
  by_cases hwell : Malformed maxFragments index total
  · exact ⟨_,s,ingest_malformed nowMs msgId fragBytes hwell,h,.refused (.inl hwell)⟩
  obtain ⟨hheld,hopens⟩ := hs hwell
  have hrange : 0 < total ∧ index < total ∧ total ≤ maxFragments := by
    rw [Malformed] at hwell
    omega
  obtain ⟨idx,_,hin,hid⟩ | ⟨_,hnone⟩ := find_holder (s := s) msgId
  · subst hid
    have hothers : ∀j,j≠idx → (s.contexts j).inUse=true → (s.contexts j).msgId≠(s.contexts idx).msgId :=
      fun j hj hjin => h.others hin hj hjin
    rw [ingest_held h nowMs fragBytes hwell hin]
    by_cases ht : (s.contexts idx).total=total
    · obtain ⟨hi,hadd⟩ := hheld _ ⟨idx,rfl,hin,rfl⟩ ht
      rw [if_neg (not_not.mpr ht)]
      obtain ⟨e,c,active,used,hrun,hsound,hr⟩ := h.receive hin nowMs hi (ht ▸ hrange.2.1) hadd
      obtain ⟨hown,hframe⟩ := holds_put active used (fun _ => rfl) hr.msgId hothers
      exact ⟨e,_,hrun,hsound,.received hwell (.inl ⟨⟨idx,rfl,hin,rfl⟩,ht⟩) hr hown hframe⟩
    · rw [if_pos ht]
      obtain ⟨active,used,hfree,hsound⟩ := h.free hin
      rw [hfree]
      obtain ⟨hown,hframe⟩ := holds_put active used (c := { s.contexts idx with inUse := false })
        (fun _ => rfl) rfl hothers
      refine ⟨_,_,rfl,hsound,.disagreed ⟨idx,rfl,hin,rfl⟩ ht ?_ hframe⟩
      intro d hd
      exact Bool.false_ne_true ((hown d).mp hd).2
  · obtain ⟨idx,hfind,hfree⟩ | ⟨hfind,hfull⟩ := find_free (s := s)
    · obtain ⟨hi,hcount,hadd⟩ := hopens hnone ⟨idx,hfree⟩
      rw [ingest_opens nowMs msgId fragBytes hwell hnone hfind,if_pos hcount]
      have hopen := h.opened hfree nowMs msgId hrange.1 hrange.2.2 hnone
      have hself : (s.put idx (Context.opened nowMs msgId total) (s.active+1) s.bytesUsed).contexts idx=
          Context.opened nowMs msgId total := put_self
      obtain ⟨e,c,active,used,hrun,hsound,hr⟩ := hopen.receive (congrArg Context.inUse hself) nowMs hi
        (hrange.2.1.trans_eq (congrArg Context.total hself).symm) (fun _ => by rw [hself]; simpa [Context.opened] using hadd)
      rw [hself,put_bytesUsed] at hr
      rw [put_put] at hrun hsound
      have hbefore : (s.contexts idx).inUse=true → (s.contexts idx).msgId=msgId :=
        fun hin => absurd hin (by simp [hfree])
      obtain ⟨hown,hframe⟩ := holds_put active used hbefore hr.msgId (fun j _ hjin he => hnone _ ⟨j,rfl,hjin,he⟩)
      exact ⟨e,_,hrun,hsound,.received hwell (.inr ⟨hnone,rfl⟩) hr hown hframe⟩
    · rw [ingest_full nowMs msgId fragBytes hwell hnone hfind]
      exact ⟨_,s,rfl,h,.refused (.inr ⟨hnone,hfull⟩)⟩

/-- Any other fragment panics. -/
theorem Sound.ingest_none (h : Sound maxFragments s) (nowMs : UInt64) {msgId : UInt64} {index total fragBytes : Nat}
    (hs : ¬Spared maxFragments s msgId index total fragBytes) :
    s.ingest maxFragments nowMs msgId index total fragBytes=none := by
  rw [Spared,Classical.not_imp] at hs
  obtain ⟨hwell,hs⟩ := hs
  obtain ⟨idx,_,hin,hid⟩ | ⟨_,hnone⟩ := find_holder (s := s) msgId
  · subst hid
    rw [ingest_held h nowMs fragBytes hwell hin]
    have hheld : (s.contexts idx).total=total ∧ (windowBits ≤ index ∨
        (index∉seenSet (s.contexts idx).seen ∧ wordLimit ≤ (s.contexts idx).bytes+fragBytes)) := by
      by_contra hno
      apply hs
      refine ⟨?_,fun hnone _ => absurd ⟨idx,rfl,hin,rfl⟩ (hnone _)⟩
      intro c hc ht
      obtain rfl := h.holds_unique hc ⟨idx,rfl,hin,rfl⟩
      rw [not_and_or,not_or] at hno
      obtain hne | ⟨hi,hadd⟩ := hno
      · exact absurd ht hne
      · exact ⟨not_le.mp hi,fun hnew => not_le.mp (fun hle => hadd ⟨hnew,hle⟩)⟩
    rw [if_neg (not_not.mpr hheld.1)]
    exact receive_none s idx nowMs hheld.2
  · obtain ⟨idx,hfind,hfree⟩ | ⟨hfind,hfull⟩ := find_free (s := s)
    · rw [ingest_opens nowMs msgId fragBytes hwell hnone hfind]
      split_ifs with hcount
      · apply receive_none
        rw [put_self,Context.opened,seenSet_new,Nat.zero_add]
        by_contra hno
        rw [not_or,not_and,not_le] at hno
        apply hs
        refine ⟨fun c hc => absurd hc (hnone c),fun _ _ => ⟨hno.1,hcount,?_⟩⟩
        exact not_le.mp (hno.2 (Finset.notMem_empty index))
      · rfl
    · exact absurd ⟨fun c hc => absurd hc (hnone c),fun _ hany => by simp [hfull] at hany⟩ hs

/-- A context behind a sweep. -/
def Context.swept (c : Context) (nowMs : UInt64) : Context :=
  if c.inUse && c.expired nowMs then { c with inUse := false } else c

theorem swept_swept (c : Context) (nowMs : UInt64) : (c.swept nowMs).swept nowMs=c.swept nowMs := by
  by_cases h : (c.inUse && c.expired nowMs)=true
  · rw [Context.swept,Context.swept,if_pos h]
    rfl
  · rw [Context.swept,Context.swept,if_neg h,if_neg h]

theorem sweep_loop (h : Sound maxFragments s) (nowMs : UInt64) (idxs : List (Fin maxContexts)) :
    ∃s',idxs.foldlM (fun s i => if (s.contexts i).inUse && (s.contexts i).expired nowMs then s.freeContext i else some s) s=
        some s' ∧ Sound maxFragments s' ∧
      ∀j,s'.contexts j=if j∈idxs then (s.contexts j).swept nowMs else s.contexts j := by
  induction idxs generalizing s with
  | nil => exact ⟨s,rfl,h,fun j => (if_neg List.not_mem_nil).symm⟩
  | cons i idxs ih =>
    have hone : ∃s₁,(if (s.contexts i).inUse && (s.contexts i).expired nowMs then s.freeContext i else some s)=some s₁ ∧
        Sound maxFragments s₁ ∧ ∀j,s₁.contexts j=if j=i then (s.contexts j).swept nowMs else s.contexts j := by
      by_cases hi : ((s.contexts i).inUse && (s.contexts i).expired nowMs)=true
      · have hin : (s.contexts i).inUse=true := (Bool.and_eq_true _ _ ▸ hi).1
        obtain ⟨active,used,hfree,hsound⟩ := h.free hin
        refine ⟨_,(if_pos hi).trans hfree,hsound,?_⟩
        intro j
        by_cases hj : j=i
        · rw [if_pos hj,hj,put_self,Context.swept,if_pos hi]
        · rw [if_neg hj,put_other hj]
      · refine ⟨s,if_neg hi,h,?_⟩
        intro j
        by_cases hj : j=i
        · rw [if_pos hj,hj,Context.swept,if_neg hi]
        · rw [if_neg hj]
    obtain ⟨s₁,hrun,hsound,hs₁⟩ := hone
    obtain ⟨s',hrest,hs',hat⟩ := ih hsound
    refine ⟨s',?_,hs',?_⟩
    · rw [List.foldlM_cons,hrun]
      exact hrest
    · intro j
      rw [hat j,hs₁ j]
      by_cases hj : j=i
      · simp [hj,swept_swept]
      · simp [hj]

/-- A sweep looks at every context once. -/
theorem Sound.evictExpired (h : Sound maxFragments s) (nowMs : UInt64) :
    ∃s',s.evictExpired nowMs=some s' ∧ Sound maxFragments s' ∧
      ∀i,s'.contexts i=(s.contexts i).swept nowMs := by
  obtain ⟨s',hrun,hsound,hat⟩ := sweep_loop h nowMs (List.finRange maxContexts)
  refine ⟨s',hrun,hsound,?_⟩
  intro i
  rw [hat i,if_pos (List.mem_finRange i)]

theorem Sound.act (h : Sound maxFragments s) {call : Call} {s' : PeerReassembler maxContexts}
    (hrun : s.act maxFragments call=some s') : Sound maxFragments s' := by
  cases call with
  | ingest nowMs msgId index total fragBytes =>
    by_cases hs : Spared maxFragments s msgId index total fragBytes
    · obtain ⟨e,s₁,hi,hsound,_⟩ := h.ingest nowMs hs
      rw [PeerReassembler.act,hi] at hrun
      exact Option.some.inj hrun ▸ hsound
    · rw [PeerReassembler.act,h.ingest_none nowMs hs] at hrun
      cases hrun
  | evictExpired nowMs =>
    obtain ⟨s₁,he,hsound,_⟩ := h.evictExpired nowMs
    rw [PeerReassembler.act,he] at hrun
    exact Option.some.inj hrun ▸ hsound

theorem Sound.runs (h : Sound maxFragments s) {calls : List Call} {s' : PeerReassembler maxContexts}
    (hrun : s.runs maxFragments calls=some s') : Sound maxFragments s' := by
  induction calls generalizing s with
  | nil => exact Option.some.inj hrun ▸ h
  | cons call calls ih =>
    rw [PeerReassembler.runs,List.foldlM_cons,Option.bind_eq_bind,Option.bind_eq_some_iff] at hrun
    obtain ⟨s₁,hact,hrest⟩ := hrun
    exact ih (h.act hact) hrest

end Sound

end Bolina.Reassembly
