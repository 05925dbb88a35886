import Bolina.Evidence.Replay
import Bolina.Framework.Panic
import Bolina.Framework.Slots
import Mathlib.Algebra.BigOperators.Group.Finset.Basic

namespace Bolina.Reassembly

open Panic Slots
open Evidence (Words windowBits windowWords bitAt setBit bitAt_setBit word word_zero maskBit_zero)
open Transport (and_bit_ne_zero)

def maxMessage : Nat := 1<<<20
def memoryPerPeer : Nat := 8<<<20
def incompleteTimeoutMs : UInt64 := 30000

inductive PeerEvent where
  | Complete
  | Partial
  | Duplicate
  | MessageDropped
  deriving DecidableEq,Repr

structure Context where
  msgId : UInt64
  total : Nat
  received : Nat
  bytes : Nat
  updatedMs : UInt64
  inUse : Bool
  seen : Words
  deriving DecidableEq

def Context.new : Context := ⟨0,0,0,0,0,false,Vector.replicate windowWords 0⟩

structure PeerReassembler (maxContexts : Nat) where
  contexts : Fin maxContexts → Context
  active : Nat
  bytesUsed : Nat

def PeerReassembler.new (maxContexts : Nat) : PeerReassembler maxContexts := ⟨fun _ => Context.new,0,0⟩

section Steps

variable {maxContexts : Nat} (s : PeerReassembler maxContexts)

def PeerReassembler.freeContext (idx : Fin maxContexts) : Option (PeerReassembler maxContexts) := do
  let c := s.contexts idx
  if c.inUse then
    let active ← sub s.active 1
    return ⟨Function.update s.contexts idx { c with inUse := false },active,s.bytesUsed-c.bytes⟩
  else return s

/-- A fragment of the message whose context is at `idx`. -/
def PeerReassembler.receive (idx : Fin maxContexts) (nowMs : UInt64) (index fragBytes : Nat) :
    Option (PeerEvent × PeerReassembler maxContexts) := do
  let c := s.contexts idx
  let bit := (1 : UInt64)<<<UInt64.ofNat (index%64)
  let seen ← c.seen[index/64]?
  if seen&&&bit≠0 then return (.Duplicate,s)
  else
    let bytes ← add c.bytes fragBytes
    if maxMessage < bytes then return (.MessageDropped,← s.freeContext idx)
    else
      let used ← add s.bytesUsed fragBytes
      if memoryPerPeer < used then return (.MessageDropped,← s.freeContext idx)
      else
        let received ← addBelow (2^16) c.received 1
        let c := { c with seen := setBit c.seen (index/64) bit,received,bytes,updatedMs := nowMs }
        let s := { s with contexts := Function.update s.contexts idx c,bytesUsed := used }
        if c.total ≤ c.received then return (.Complete,← s.freeContext idx)
        else return (.Partial,s)

def PeerReassembler.ingest (maxFragments : Nat) (nowMs msgId : UInt64) (index total fragBytes : Nat) :
    Option (PeerEvent × PeerReassembler maxContexts) := do
  if total=0 ∨ total ≤ index ∨ maxFragments < total then return (.MessageDropped,s)
  else
    match Fin.find? (fun i => (s.contexts i).inUse && (s.contexts i).msgId == msgId) with
    | some idx =>
      if (s.contexts idx).total≠total then return (.MessageDropped,← s.freeContext idx)
      else s.receive idx nowMs index fragBytes
    | none =>
      match Fin.find? (fun i => !(s.contexts i).inUse) with
      | none => return (.MessageDropped,s)
      | some idx =>
        let c : Context := ⟨msgId,total,0,0,nowMs,true,Vector.replicate windowWords 0⟩
        let active ← addBelow (2^8) s.active 1
        { s with contexts := Function.update s.contexts idx c,active }.receive idx nowMs index fragBytes

/-- The age wraps around where the clock is behind the last update. -/
def Context.expired (c : Context) (nowMs : UInt64) : Bool := decide (incompleteTimeoutMs ≤ nowMs-c.updatedMs)

def PeerReassembler.evictExpired (nowMs : UInt64) : Option (PeerReassembler maxContexts) :=
  (List.finRange maxContexts).foldlM
    (fun s i => if (s.contexts i).inUse && (s.contexts i).expired nowMs then s.freeContext i else some s) s

end Steps

inductive Call where
  | ingest (nowMs msgId : UInt64) (index total fragBytes : Nat)
  | evictExpired (nowMs : UInt64)
  deriving DecidableEq

def PeerReassembler.act {maxContexts : Nat} (maxFragments : Nat) (s : PeerReassembler maxContexts) :
    Call → Option (PeerReassembler maxContexts)
  | .ingest nowMs msgId index total fragBytes =>
    (s.ingest maxFragments nowMs msgId index total fragBytes).map Prod.snd
  | .evictExpired nowMs => s.evictExpired nowMs

/-- The state that a run of calls leaves, if no call panics. -/
def PeerReassembler.runs {maxContexts : Nat} (maxFragments : Nat) (s : PeerReassembler maxContexts)
    (calls : List Call) : Option (PeerReassembler maxContexts) := calls.foldlM (PeerReassembler.act maxFragments) s

section Seen

/-- The fragments that a map has seen. -/
def seenSet (seen : Words) : Finset Nat := (Finset.range windowBits).filter (fun i => bitAt seen i=true)

theorem mem_seenSet {seen : Words} {i : Nat} : i∈seenSet seen ↔ i < windowBits ∧ bitAt seen i=true := by
  rw [seenSet,Finset.mem_filter,Finset.mem_range]

theorem seenSet_new : seenSet (Vector.replicate windowWords 0)=∅ := by
  apply Finset.filter_eq_empty_iff.mpr
  intro i _
  rw [bitAt,word_zero,maskBit_zero]
  exact Bool.false_ne_true

theorem ofNat_toNat {index : Nat} (h : index < windowBits) : (UInt64.ofNat index).toNat=index := by
  rw [windowBits] at h
  exact UInt64.toNat_ofNat_of_lt' (by rw [UInt64.size]; omega)

theorem ofNat_div {index : Nat} (h : index < windowBits) : (UInt64.ofNat index/64).toNat=index/64 := by
  rw [UInt64.toNat_div,ofNat_toNat h]
  rfl

theorem ofNat_mod {index : Nat} (h : index < windowBits) : UInt64.ofNat index%64=UInt64.ofNat (index%64) := by
  have hlt : index%64 < windowBits := (Nat.mod_lt index (by decide)).trans (by decide)
  rw [← UInt64.toNat_inj,UInt64.toNat_mod,ofNat_toNat h,ofNat_toNat hlt]
  rfl

theorem seenSet_setBit (seen : Words) {index : Nat} (h : index < windowBits) :
    seenSet (setBit seen (index/64) ((1 : UInt64)<<<UInt64.ofNat (index%64)))=insert index (seenSet seen) := by
  ext i
  rw [Finset.mem_insert,mem_seenSet,mem_seenSet]
  constructor
  · intro hw
    obtain ⟨hi,hbit⟩ := hw
    rw [← ofNat_div h,← ofNat_mod h,bitAt_setBit _ _ _ hi,ofNat_toNat h,Bool.or_eq_true,decide_eq_true_iff] at hbit
    exact hbit.elim (fun hb => .inr ⟨hi,hb⟩) (fun he => .inl he.symm)
  · intro hw
    obtain rfl | ⟨hi,hb⟩ := hw
    · refine ⟨h,?_⟩
      rw [← ofNat_div h,← ofNat_mod h,bitAt_setBit _ _ _ h,ofNat_toNat h,decide_eq_true rfl,Bool.or_true]
    · refine ⟨hi,?_⟩
      rw [← ofNat_div h,← ofNat_mod h,bitAt_setBit _ _ _ hi,hb,Bool.true_or]

/-- A fragment past the map is out of its range. -/
theorem seen_none (seen : Words) {index : Nat} (h : windowBits ≤ index) : seen[index/64]?=none := by
  rw [Vector.getElem?_eq_none_iff]
  rw [windowBits] at h
  rw [windowWords]
  omega

theorem seen_some (seen : Words) {index : Nat} (h : index < windowBits) :
    ∃w,seen[index/64]?=some w ∧ (w&&&((1 : UInt64)<<<UInt64.ofNat (index%64))≠0 ↔ index∈seenSet seen) := by
  have hw : index/64 < windowWords := Nat.div_lt_of_lt_mul h
  have hm : index%64 < 64 := Nat.mod_lt index (by decide)
  have hb : (UInt64.ofNat (index%64)).toNat=index%64 := ofNat_toNat (hm.trans (by decide))
  refine ⟨word seen (index/64),?_,?_⟩
  · rw [word,Vector.getElem?_eq_getElem hw]
    rfl
  · rw [and_bit_ne_zero _ _ (by omega),hb,mem_seenSet]
    exact ⟨fun hbit => ⟨h,hbit⟩,fun hbit => hbit.2⟩

end Seen

end Bolina.Reassembly
