import Bolina.Framework.FixedBytes
import Bolina.Framework.Panic
import Bolina.Framework.RecentRing

namespace Bolina.Sync

open Panic

def rateWindowMs : UInt64 := 10000
def serveBudget : Nat := 8
def maxTrackedPeers : Nat := 64

structure RateWindow where
  stamps : List UInt64
  budget : Nat
  next : Nat
  deriving DecidableEq

def RateWindow.new (budget : Nat) : RateWindow := ⟨List.replicate serveBudget 0,budget,0⟩

/-- A stamp that lies in the window; zero is none. -/
def inside (windowMs nowMs stamp : UInt64) : Bool :=
  stamp != 0 && (decide (stamp ≤ nowMs) && decide (nowMs-stamp < windowMs))

def RateWindow.admit (w : RateWindow) (windowMs nowMs : UInt64) : Option (Bool × RateWindow) := do
  let count ← (List.range w.budget).foldlM (fun count i => do
    let stamp ← index w.stamps i
    return if inside windowMs nowMs stamp then count+1 else count) 0
  if w.budget ≤ count then return (false,w)
  else
    let stamps ← setAt w.stamps w.next nowMs
    return (true,{ w with stamps,next := (w.next+1)%w.budget })

abbrev Peer := FixedBytes 32

structure RateTable where
  peers : Fin maxTrackedPeers → Peer
  windows : Fin maxTrackedPeers → RateWindow
  used : Nat

def RateTable.new (budget : Nat) : RateTable := ⟨fun _ => fixed 32 [],fun _ => RateWindow.new budget,0⟩

/-- The first slot in use of the peer. -/
def RateTable.position (t : RateTable) (peer : Peer) : Option (Fin maxTrackedPeers) :=
  Fin.find? (fun i => decide (i.val < t.used) && t.peers i == peer)

def RateTable.admit (t : RateTable) (peer : Peer) (windowMs nowMs : UInt64) : Option (Bool × RateTable) := do
  match t.position peer with
  | some i =>
    let (verdict,w) ← RateWindow.admit (t.windows i) windowMs nowMs
    return (verdict,{ t with windows := Function.update t.windows i w })
  | none =>
    if maxTrackedPeers ≤ t.used then return (false,t)
    else
      let peers ← setPlace t.peers t.used peer
      let used := t.used+1
      let (verdict,w) ← RateWindow.admit (← place t.windows (used-1)) windowMs nowMs
      let windows ← setPlace t.windows (used-1) w
      return (verdict,⟨peers,windows,used⟩)

structure Request where
  peer : Peer
  windowMs : UInt64
  nowMs : UInt64
  deriving DecidableEq

/-- The verdicts of a window on the requests of one peer. -/
def RateWindow.runs (w : RateWindow) : List Request → Option (List Bool × RateWindow)
  | [] => some ([],w)
  | r::rs => do
    let (verdict,w) ← w.admit r.windowMs r.nowMs
    let (verdicts,w) ← w.runs rs
    return (verdict::verdicts,w)

def RateTable.runs (t : RateTable) : List Request → Option (List Bool × RateTable)
  | [] => some ([],t)
  | r::rs => do
    let (verdict,t) ← t.admit r.peer r.windowMs r.nowMs
    let (verdicts,t) ← t.runs rs
    return (verdict::verdicts,t)

section Window

variable {w : RateWindow} {stamps : List UInt64}

/-- The window holds the last stamps of those it has admitted. -/
structure Recalls (budget : Nat) (w : RateWindow) (stamps : List UInt64) : Prop where
  counts : w.budget=budget
  size : w.stamps.length=serveBudget
  ring : RecentRing.Holds budget 0 w.stamps w.next stamps

theorem recalls_new {budget : Nat} (h : budget ≤ serveBudget) : Recalls budget (RateWindow.new budget) [] where
  counts := rfl
  size := List.length_replicate
  ring := RecentRing.holds_nil (fun i hi => by
    rw [RateWindow.new,List.getElem?_replicate,if_pos (hi.trans_le h)])

/-- The loop counts the slots that lie in the window. -/
theorem count_slots (slots : List UInt64) (windowMs nowMs : UInt64) (n : Nat) (h : n ≤ slots.length) :
    (List.range n).foldlM (fun count i => do
      let stamp ← index slots i
      return if inside windowMs nowMs stamp then count+1 else count) 0=
        some ((slots.take n).countP (inside windowMs nowMs)) := by
  induction n with
  | zero => rfl
  | succ n ih =>
    have hn : n < slots.length := h
    rw [List.range_succ,List.foldlM_append,ih hn.le,List.take_add_one,List.getElem?_eq_getElem hn,List.countP_append,
      Option.toList_some,List.countP_singleton]
    simp only [Option.bind_eq_bind,Option.bind_some,List.foldlM_cons,List.foldlM_nil,index_eq hn,pure]
    split_ifs <;> rfl

theorem count_full (slots : List UInt64) (windowMs nowMs : UInt64) (n : Nat) (h : n ≤ slots.length) :
    n ≤ (slots.take n).countP (inside windowMs nowMs) ↔ ∀i,i < n → (slots[i]?).any (inside windowMs nowMs)=true := by
  have hlen : (slots.take n).length=n := by
    rw [List.length_take]
    omega
  constructor
  · intro hcount i hi
    have hall := List.countP_eq_length.mp (le_antisymm List.countP_le_length (hlen.le.trans hcount))
    have hlt : i < slots.length := by omega
    rw [List.getElem?_eq_getElem hlt,Option.any_some]
    apply hall
    rw [List.mem_iff_getElem]
    exact ⟨i,by omega,List.getElem_take⟩
  · intro hall
    rw [List.countP_eq_length.mpr,hlen]
    intro x hx
    obtain ⟨i,hi,rfl⟩ := List.mem_iff_getElem.mp hx
    rw [hlen] at hi
    have hany := hall i hi
    rw [List.getElem?_eq_getElem (by omega),Option.any_some] at hany
    rw [List.getElem_take]
    exact hany

/-- The window admits exactly while fewer than `budget` of all admitted stamps lie in it. -/
theorem Recalls.step {budget : Nat} (h : Recalls budget w stamps) (hpos : 1 ≤ budget) (hmax : budget ≤ serveBudget)
    (hmono : stamps.Pairwise (· ≤ ·)) (windowMs : UInt64) {nowMs : UInt64} (hnow : ∀s∈stamps,s≠0 ∧ s ≤ nowMs) :
    ∃w', w.admit windowMs nowMs=
        some (decide ((stamps.filter (fun s => decide (nowMs-s < windowMs))).length < budget),w') ∧
      Recalls budget w' (if (stamps.filter (fun s => decide (nowMs-s < windowMs))).length < budget then stamps++[nowMs]
        else stamps) := by
  have hsize : budget ≤ w.stamps.length := by rw [h.size]; exact hmax
  have hrest : stamps.Pairwise (fun a c => inside windowMs nowMs a=true → inside windowMs nowMs c=true) := by
    refine hmono.imp_of_mem ?_
    intro a c ha hc hle hin
    obtain ⟨hc0,hcn⟩ := hnow c hc
    obtain ⟨_,han⟩ := hnow a ha
    have hcloser : nowMs-c ≤ nowMs-a := by
      rw [UInt64.le_iff_toNat_le,UInt64.toNat_sub_of_le _ _ hcn,UInt64.toNat_sub_of_le _ _ han]
      rw [UInt64.le_iff_toNat_le] at hle
      omega
    rw [inside] at hin ⊢
    simp only [Bool.and_eq_true,decide_eq_true_iff,bne_iff_ne] at hin ⊢
    exact ⟨hc0,hcn,UInt64.lt_of_le_of_lt hcloser hin.2.2⟩
  have hcount : (stamps.filter (fun s => decide (nowMs-s < windowMs))).length=stamps.countP (inside windowMs nowMs) := by
    rw [← List.countP_eq_length_filter]
    apply List.countP_congr
    intro s hs
    obtain ⟨h0,hn⟩ := hnow s hs
    simp [inside,h0,hn]
  have hfull : budget ≤ (w.stamps.take budget).countP (inside windowMs nowMs) ↔
      budget ≤ (stamps.filter (fun s => decide (nowMs-s < windowMs))).length := by
    rw [hcount,count_full _ _ _ _ hsize,h.ring.all_iff _ rfl,RecentRing.le_countP_iff _ hrest]
  unfold RateWindow.admit
  rw [h.counts,count_slots _ _ _ _ hsize]
  simp only [Option.bind_eq_bind,Option.bind_some]
  by_cases hle : budget ≤ (w.stamps.take budget).countP (inside windowMs nowMs)
  · have hno : ¬(stamps.filter (fun s => decide (nowMs-s < windowMs))).length < budget := not_lt.mpr (hfull.mp hle)
    rw [if_pos hle,if_neg hno,decide_eq_false hno]
    exact ⟨w,rfl,h⟩
  · have hyes : (stamps.filter (fun s => decide (nowMs-s < windowMs))).length < budget := not_le.mp (hfull.not.mp hle)
    have hnext : w.next < w.stamps.length := (h.ring.next_lt hpos).trans_le hsize
    rw [if_neg hle,if_pos hyes,decide_eq_true hyes,setAt,if_pos hnext]
    refine ⟨_,rfl,rfl,?_,h.ring.push hpos hsize nowMs⟩
    rw [List.length_set]
    exact h.size

end Window

end Bolina.Sync
