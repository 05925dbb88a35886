import Bolina.Framework.FixedBytes
import Bolina.Framework.Panic
import Bolina.Framework.Slots
import Mathlib.Algebra.BigOperators.Fin

namespace Bolina.RelayStore

open Panic Slots

def maxBody : Nat := 2048
def maxPerRecipient : Nat := 64
def maxBytesPerRecipient : Nat := 4*1024*1024
def ttlMs : UInt64 := 120*1000
def maxStored : Nat := 1024

inductive StoreError where
  | BodyTooLarge
  | RecipientQuota
  | StoreFull
  deriving DecidableEq,Repr

abbrev Addr := FixedBytes 16

structure StoredPacket where
  inUse : Bool
  senderIndex : UInt32
  recipientAddr : Addr
  bodyLen : Nat
  body : FixedBytes maxBody
  storedAtMs : UInt64

def StoredPacket.default : StoredPacket := ⟨false,0,fixed 16 [],0,fixed maxBody [],0⟩

structure DrainedPacket where
  senderIndex : UInt32
  body : Bytes
  deriving DecidableEq

structure Store (capacity : Nat) where
  packets : Fin capacity → StoredPacket
  count : Nat
  refusedQuota : Nat

def Store.new (capacity : Nat) : Store capacity := ⟨fun _ => StoredPacket.default,0,0⟩

def StoredPacket.expired (p : StoredPacket) (nowMs : UInt64) : Bool :=
  decide (p.storedAtMs ≤ nowMs) && decide (ttlMs ≤ nowMs-p.storedAtMs)

/-- A packet in use for the recipient. -/
def StoredPacket.isFor (p : StoredPacket) (recipientAddr : Addr) : Bool := p.inUse && p.recipientAddr == recipientAddr

section Steps

variable {capacity : Nat} (s : Store capacity)

def Store.reset : Store capacity := ⟨fun i => { s.packets i with inUse := false },0,0⟩

/-- The number of packets purged, and the store behind them. -/
def Store.purgeExpired (nowMs : UInt64) : Option (Nat × Store capacity) :=
  (List.finRange capacity).foldlM (fun (r : Nat × Store capacity) i => do
    let p := r.2.packets i
    if p.inUse && p.expired nowMs then
      let count ← sub r.2.count 1
      return (r.1+1,{ r.2 with packets := Function.update r.2.packets i { p with inUse := false },count })
    else return r) (0,s)

/-- How many packets the recipient has, and how many bytes in them. -/
def Store.tally (recipientAddr : Addr) : Nat × Nat :=
  (List.finRange capacity).foldl (fun r i =>
    if (s.packets i).isFor recipientAddr then (r.1+1,r.2+(s.packets i).bodyLen) else r) (0,0)

def Store.refuse (e : StoreError) : Option (Except StoreError Unit × Store capacity) := do
  let refusedQuota ← add s.refusedQuota 1
  return (.error e,{ s with refusedQuota })

def Store.store (recipientAddr : Addr) (senderIndex : UInt32) (body : Bytes) (nowMs : UInt64) :
    Option (Except StoreError Unit × Store capacity) := do
  if maxBody < body.length then return (.error .BodyTooLarge,s)
  else
    let (_,s) ← s.purgeExpired nowMs
    if capacity ≤ s.count then s.refuse .StoreFull
    else
      let (recipCount,recipBytes) := s.tally recipientAddr
      if maxPerRecipient ≤ recipCount ∨ maxBytesPerRecipient < recipBytes+body.length then s.refuse .RecipientQuota
      else
        match Fin.find? (fun i => !(s.packets i).inUse) with
        | none => s.refuse .StoreFull
        | some i =>
          let buffer ← exact (← copyTo (s.packets i).body.toList body 0 body.length) maxBody
          return (.ok (),{ s with
            packets := Function.update s.packets i ⟨true,senderIndex,recipientAddr,body.length,buffer,nowMs⟩
            count := s.count+1 })

/-- One slot of the search for the oldest packet. -/
def Store.better (recipientAddr : Addr) (best : Option (Fin capacity)) (i : Fin capacity) : Option (Fin capacity) :=
  if (s.packets i).isFor recipientAddr=false then best
  else
    match best with
    | none => some i
    | some b =>
      if (s.packets b).storedAtMs < (s.packets i).storedAtMs then best
      else if (s.packets i).storedAtMs=(s.packets b).storedAtMs ∧ b < i then best
      else some i

def Store.drainNext (recipientAddr : Addr) (nowMs : UInt64) : Option (Option DrainedPacket × Store capacity) := do
  let (_,s) ← s.purgeExpired nowMs
  match (List.finRange capacity).foldl (s.better recipientAddr) none with
  | none => return (none,s)
  | some idx =>
    let p := s.packets idx
    let count ← sub s.count 1
    let body ← range p.body.toList 0 p.bodyLen
    return (some ⟨p.senderIndex,body⟩,
      { s with packets := Function.update s.packets idx { p with inUse := false },count })

end Steps

inductive Call where
  | store (recipientAddr : Addr) (senderIndex : UInt32) (body : Bytes) (nowMs : UInt64)
  | drainNext (recipientAddr : Addr) (nowMs : UInt64)
  | purgeExpired (nowMs : UInt64)
  | reset
  deriving DecidableEq

inductive Answer where
  | stored (r : Except StoreError Unit)
  | drained (r : Option DrainedPacket)
  | purged (n : Nat)
  | done
  deriving DecidableEq

def Store.act {capacity : Nat} (s : Store capacity) : Call → Option (Answer × Store capacity)
  | .store recipientAddr senderIndex body nowMs =>
    (s.store recipientAddr senderIndex body nowMs).map (fun r => (.stored r.1,r.2))
  | .drainNext recipientAddr nowMs => (s.drainNext recipientAddr nowMs).map (fun r => (.drained r.1,r.2))
  | .purgeExpired nowMs => (s.purgeExpired nowMs).map (fun r => (.purged r.1,r.2))
  | .reset => some (.done,s.reset)

/-- A run of calls with their answers, if no call panics. -/
def Store.runs {capacity : Nat} (s : Store capacity) : List Call → Option (List (Call × Answer) × Store capacity)
  | [] => some ([],s)
  | call::calls => do
    let (answer,s) ← s.act call
    let (hist,s) ← s.runs calls
    return ((call,answer)::hist,s)

end Bolina.RelayStore
