import Bolina.Framework.FixedBytes
import Bolina.Framework.Panic
import Bolina.Framework.Reachability
import Mathlib.Data.Finset.Card

namespace Bolina.Causal

open Panic Reachability Relation

def nodeBytes : Nat := 32
abbrev Node := FixedBytes nodeBytes

def maxNodes : Nat := 128
def maxParents : Nat := 8

inductive DagError where
  | Overflow
  | Cyclic
  | NotNode
  deriving DecidableEq,Repr

/-- The parts of the arrays that are in use: the nodes, the parents of each, and the bitmap of the search. -/
structure Dag where
  nodes : List Node
  parents : List (List Nat)
  visited : List Bool
  deriving DecidableEq

def Dag.new : Dag := ⟨[],[],List.replicate maxNodes false⟩

def Dag.indexOf (d : Dag) (hash : Node) : Option Nat := d.nodes.findIdx? (fun n => n==hash)

def Dag.contains (d : Dag) (hash : Node) : Bool := (d.indexOf hash).isSome

def Dag.intern (d : Dag) (hash : Node) : Except DagError Nat × Dag :=
  match d.indexOf hash with
  | some idx => (.ok idx,d)
  | none =>
    if maxNodes ≤ d.nodes.length then (.error .Overflow,d)
    else (.ok d.nodes.length,{ d with nodes := d.nodes++[hash],parents := d.parents++[[]] })

/-- The locals of the search: `queue[..tail]`, `head` and `touched[..touched_n]`. -/
structure Search where
  visited : List Bool
  queue : List Nat
  head : Nat
  touched : List Nat

/-- An array of 128 entries takes one more. -/
def pushEntry (xs : List Nat) (x : Nat) : Option (List Nat) := if xs.length < maxNodes then some (xs++[x]) else none

def Search.reach (s : Search) (p : Nat) : Option Search := do
  let visited ← setAt s.visited p true
  let touched ← pushEntry s.touched p
  let queue ← pushEntry s.queue p
  return { s with visited,touched,queue }

/-- The loop over the parents of a node; it stops at the ancestor. -/
def parentLoop (ancestor : Nat) : List Nat → Search → Option (Bool × Search)
  | [],s => some (false,s)
  | p::rest,s => do
    if p=ancestor then return (true,s)
    else if (← index s.visited p)=false then parentLoop ancestor rest (← s.reach p)
    else parentLoop ancestor rest s

/-- The loop over the queue. -/
def Dag.searchLoop (d : Dag) (ancestor : Nat) : Nat → Search → Option (Bool × Search)
  | 0,_ => none
  | fuel+1,s => do
    if s.head < s.queue.length then
      let cur ← index s.queue s.head
      match ← parentLoop ancestor (← index d.parents cur) { s with head := s.head+1 } with
      | (true,s) => return (true,s)
      | (false,s) => d.searchLoop ancestor fuel s
    else return (false,s)

def resetVisited (touched : List Nat) (visited : List Bool) : Option (List Bool) :=
  touched.foldlM (fun visited i => setAt visited i false) visited

def Dag.isAncestorIdx (d : Dag) (ancestor descendant : Nat) : Option (Bool × Dag) := do
  if ancestor=descendant then return (false,d)
  else
    let s ← Search.reach ⟨d.visited,[],0,[]⟩ descendant
    let (found,s) ← d.searchLoop ancestor (maxNodes+1) s
    let visited ← resetVisited s.touched s.visited
    return (found,{ d with visited })

/-- The edge goes in last, behind two interns and three checks. -/
def Dag.insert (d : Dag) (parent child : Node) : Option (Except DagError Unit × Dag) := do
  if parent=child then return (.error .Cyclic,d)
  else
    match d.intern parent with
    | (.error e,d) => return (.error e,d)
    | (.ok pidx,d) =>
      match d.intern child with
      | (.error e,d) => return (.error e,d)
      | (.ok cidx,d) =>
        let (found,d) ← d.isAncestorIdx cidx pidx
        if found then return (.error .Cyclic,d)
        else
          let ps ← index d.parents cidx
          if pidx∈ps then return (.ok (),d)
          else if maxParents ≤ ps.length then return (.error .Overflow,d)
          else
            let parents ← setAt d.parents cidx (ps++[pidx])
            return (.ok (),{ d with parents })

/-- An unknown node has no ancestors and is none. -/
def Dag.isAncestor (d : Dag) (ancestor descendant : Node) : Option (Bool × Dag) :=
  match d.indexOf ancestor,d.indexOf descendant with
  | some a,some b => d.isAncestorIdx a b
  | _,_ => some (false,d)

/-- The edges by index, from a node to its parents. -/
def Dag.Parent (d : Dag) (i j : Nat) : Prop := ∃ps,d.parents[i]?=some ps ∧ j∈ps

/-- The recorded edges, from an envelope to its parents. -/
def Dag.Edge (d : Dag) : Node → Node → Prop := labelled (fun i => d.nodes[i]?) d.Parent

/-- What every graph of a run is. -/
structure Dag.Sound (d : Dag) : Prop where
  apart : d.nodes.Nodup
  paired : d.parents.length=d.nodes.length
  fits : d.nodes.length ≤ maxNodes
  valid : ∀ps∈d.parents,∀p∈ps,p < d.nodes.length
  clean : d.visited=List.replicate maxNodes false
  acyclic : Acyclic d.Parent

section Search

variable {d : Dag}

/-- The bitmap marks what is queued, all of it is touched, and none of it twice. -/
structure Search.Kept (d : Dag) (s : Search) : Prop where
  width : s.visited.length=maxNodes
  marks : ∀i,i < maxNodes → (s.visited[i]?=some true ↔ i∈s.queue)
  touched : s.touched=s.queue
  apart : s.queue.Nodup
  valid : ∀i∈s.queue,i < d.nodes.length

/-- Distinct nodes are at most as many as there are. -/
theorem length_le_nodes {n : Nat} {xs : List Nat} (hn : xs.Nodup) (hv : ∀i∈xs,i < n) : xs.length ≤ n := by
  have hsub : xs.toFinset ⊆ Finset.range n := by
    intro i hi
    exact Finset.mem_range.mpr (hv i (List.mem_toFinset.mp hi))
  have hcard := Finset.card_le_card hsub
  rwa [List.toFinset_card_of_nodup hn,Finset.card_range] at hcard

/-- A node that has not been seen finds room in the queue. -/
theorem reach_eq {s : Search} (h : s.Kept d) (hfit : d.nodes.length ≤ maxNodes) {p : Nat} (hp : p < d.nodes.length)
    (hnew : p∉s.queue) : ∃s',s.reach p=some s' ∧ s'.queue=s.queue++[p] ∧ s'.head=s.head ∧ s'.Kept d := by
  have hnodup : (s.queue++[p]).Nodup := by
    rw [List.nodup_append_comm,List.singleton_append,List.nodup_cons]
    exact ⟨hnew,h.apart⟩
  have hvalid : ∀i∈s.queue++[p],i < d.nodes.length := by
    intro i hi
    obtain hi | hi := List.mem_append.mp hi
    · exact h.valid i hi
    · rw [List.mem_singleton.mp hi]
      exact hp
  have hroom : s.queue.length < maxNodes := by
    have hle := length_le_nodes hnodup hvalid
    rw [List.length_append,List.length_singleton] at hle
    omega
  have hlt : p < s.visited.length := by
    rw [h.width]
    omega
  refine ⟨⟨s.visited.set p true,s.queue++[p],s.head,s.queue++[p]⟩,?_,rfl,rfl,?_⟩
  · rw [Search.reach,setAt,if_pos hlt,pushEntry,pushEntry,h.touched,if_pos hroom]
    rfl
  · refine ⟨?_,?_,rfl,hnodup,hvalid⟩
    · rw [List.length_set,h.width]
    · intro i hi
      rw [List.mem_append,List.mem_singleton,← h.marks i hi]
      by_cases he : p=i
      · subst he
        simp [hlt]
      · rw [List.getElem?_set_ne he]
        exact (or_iff_left (fun hip => he hip.symm)).symm

/-- The loop stops at the ancestor, or it queues what is new of the parents. -/
theorem parentLoop_eq {ps : List Nat} {s : Search} (hs : s.Kept d) (hfit : d.nodes.length ≤ maxNodes)
    (hps : ∀p∈ps,p < d.nodes.length) (ancestor : Nat) :
    ∃found s',parentLoop ancestor ps s=some (found,s') ∧ s'.Kept d ∧ (found=true → ancestor∈ps) ∧
      (found=false → s'.head=s.head ∧ ∃more,s'.queue=s.queue++more ∧ (∀p∈more,p∈ps) ∧
        ∀p∈ps,p∈s'.queue ∧ p≠ancestor) := by
  induction ps generalizing s with
  | nil =>
    refine ⟨false,s,rfl,hs,fun h => absurd h Bool.false_ne_true,fun _ => ⟨rfl,[],?_,?_,?_⟩⟩
    · rw [List.append_nil]
    · intro p hp
      exact absurd hp List.not_mem_nil
    · intro p hp
      exact absurd hp List.not_mem_nil
  | cons p rest ih =>
    have hp : p < d.nodes.length := hps p List.mem_cons_self
    have hrest : ∀q∈rest,q < d.nodes.length := fun q hq => hps q (List.mem_cons_of_mem _ hq)
    by_cases he : p=ancestor
    · refine ⟨true,s,?_,hs,fun _ => ?_,fun h => absurd h.symm Bool.false_ne_true⟩
      · rw [parentLoop,if_pos he]
        rfl
      · rw [he]
        exact List.mem_cons_self
    · have hlt : p < s.visited.length := by
        rw [hs.width]
        omega
      have hmark := hs.marks p (by omega)
      have hidx : index s.visited p=some s.visited[p] := index_eq hlt
      rw [List.getElem?_eq_getElem hlt,Option.some_inj] at hmark
      by_cases hq : p∈s.queue
      · obtain ⟨found,s',heq,hs',ht,hf⟩ := ih hs hrest
        refine ⟨found,s',?_,hs',fun h => List.mem_cons_of_mem _ (ht h),fun h => ?_⟩
        · simp [parentLoop,he,hidx,hmark.mpr hq,heq]
        · obtain ⟨hh,more,hm,hin,hall⟩ := hf h
          refine ⟨hh,more,hm,fun q hq => List.mem_cons_of_mem _ (hin q hq),fun q hqin => ?_⟩
          obtain rfl | hqin := List.mem_cons.mp hqin
          · rw [hm]
            exact ⟨List.mem_append_left _ hq,he⟩
          · exact hall q hqin
      · obtain ⟨s₁,hr,hqueue,hhead,hs₁⟩ := reach_eq hs hfit hp hq
        obtain ⟨found,s',heq,hs',ht,hf⟩ := ih hs₁ hrest
        refine ⟨found,s',?_,hs',fun h => List.mem_cons_of_mem _ (ht h),fun h => ?_⟩
        · have hnot : s.visited[p]=false := Bool.eq_false_iff.mpr (fun h => hq (hmark.mp h))
          simp [parentLoop,he,hidx,hnot,hr,heq]
        · obtain ⟨hh,more,hm,hin,hall⟩ := hf h
          rw [hqueue,List.append_assoc] at hm
          refine ⟨hh.trans hhead,[p]++more,hm,fun q hqin => ?_,fun q hqin => ?_⟩
          · obtain hqin | hqin := List.mem_append.mp hqin
            · rw [List.mem_singleton.mp hqin]
              exact List.mem_cons_self
            · exact List.mem_cons_of_mem _ (hin q hqin)
          · obtain rfl | hqin := List.mem_cons.mp hqin
            · rw [hm]
              exact ⟨List.mem_append_right _ (List.mem_append_left _ (List.mem_singleton_self _)),he⟩
            · exact hall q hqin

/-- The search ends, within the queue, with the answer. -/
theorem searchLoop_eq (fuel : Nat) {start ancestor : Nat} {s : Search} (hd : d.Sound) (hs : s.Kept d)
    (hf : Frontier d.Parent start ancestor s.queue s.head) (hhead : s.head ≤ s.queue.length)
    (hfuel : maxNodes < s.head+fuel) :
    ∃found s',d.searchLoop ancestor fuel s=some (found,s') ∧ s'.Kept d ∧
      (found=true ↔ TransGen d.Parent start ancestor) := by
  induction fuel generalizing s with
  | zero =>
    have hle : s.queue.length ≤ d.nodes.length := length_le_nodes hs.apart hs.valid
    have hfit := hd.fits
    omega
  | succ fuel ih =>
    by_cases hlt : s.head < s.queue.length
    · have hcur : index s.queue s.head=some s.queue[s.head] := index_eq hlt
      have hin : s.queue[s.head]∈s.queue := List.getElem_mem hlt
      have hvalid : s.queue[s.head] < d.parents.length := by
        rw [hd.paired]
        exact hs.valid _ hin
      have hps : index d.parents s.queue[s.head]=some d.parents[s.queue[s.head]] := index_eq hvalid
      have hnext : ({ s with head := s.head+1 } : Search).Kept d := ⟨hs.width,hs.marks,hs.touched,hs.apart,hs.valid⟩
      obtain ⟨found,s',heq,hs',ht,hno⟩ :=
        parentLoop_eq hnext hd.fits (hd.valid _ (List.getElem_mem hvalid)) ancestor
      rw [Dag.searchLoop,if_pos hlt]
      simp only [Option.bind_eq_bind,hcur,Option.bind_some,hps,heq]
      cases found with
      | true =>
        refine ⟨true,s',rfl,hs',fun _ => ?_,fun _ => rfl⟩
        exact TransGen.tail' (hf.reached _ hin) ⟨_,List.getElem?_eq_getElem hvalid,ht rfl⟩
      | false =>
        obtain ⟨hh,more,hm,hmore,hall⟩ := hno rfl
        have hstep : Frontier d.Parent start ancestor s'.queue s'.head := by
          rw [hm,hh]
          apply hf.next (List.getElem?_eq_getElem hlt)
          · intro q hq
            exact ⟨_,List.getElem?_eq_getElem hvalid,hmore q hq⟩
          · intro q hq
            obtain ⟨ps,hps',hq⟩ := hq
            rw [List.getElem?_eq_getElem hvalid] at hps'
            cases hps'
            rw [← hm]
            exact hall q hq
        have hsucc : s'.head=s.head+1 := hh
        apply ih hs' hstep
        · rw [hsucc,hm,List.length_append]
          exact Nat.le_add_right_of_le hlt
        · omega
    · have hend : s.head=s.queue.length := by omega
      rw [Dag.searchLoop,if_neg hlt]
      refine ⟨false,s,rfl,hs,fun h => absurd h Bool.false_ne_true,fun h => ?_⟩
      rw [hend] at hf
      exact absurd h hf.not_reached

theorem resetVisited_eq {touched : List Nat} {visited : List Bool} (h : ∀i∈touched,i < visited.length) :
    ∃visited',resetVisited touched visited=some visited' ∧ visited'.length=visited.length ∧
      ∀i : Nat,visited'[i]?=some true → visited[i]?=some true ∧ i∉touched := by
  induction touched generalizing visited with
  | nil => exact ⟨visited,rfl,rfl,fun i hi => ⟨hi,List.not_mem_nil⟩⟩
  | cons j rest ih =>
    have hset : setAt visited j false=some (visited.set j false) := if_pos (h j List.mem_cons_self)
    have hrest : ∀i∈rest,i < (visited.set j false).length := by
      intro i hi
      rw [List.length_set]
      exact h i (List.mem_cons_of_mem _ hi)
    obtain ⟨visited',heq,hlen,hclear⟩ := ih hrest
    refine ⟨visited',?_,hlen.trans List.length_set,fun i hi => ?_⟩
    · rw [resetVisited,List.foldlM_cons,hset]
      exact heq
    · obtain ⟨hi,hnot⟩ := hclear i hi
      by_cases hij : j=i
      · rw [hij,List.getElem?_set_self (hij ▸ h j List.mem_cons_self)] at hi
        cases hi
      · rw [List.getElem?_set_ne hij] at hi
        refine ⟨hi,?_⟩
        rw [List.mem_cons,not_or]
        exact ⟨fun h => hij h.symm,hnot⟩

/-- What is marked is touched, so the bitmap is clean again. -/
theorem resetVisited_clean {s : Search} (h : s.Kept d) (hfit : d.nodes.length ≤ maxNodes) :
    resetVisited s.touched s.visited=some (List.replicate maxNodes false) := by
  have hin : ∀i∈s.touched,i < s.visited.length := by
    intro i hi
    rw [h.touched] at hi
    rw [h.width]
    exact (h.valid i hi).trans_le hfit
  obtain ⟨visited,heq,hlen,hclear⟩ := resetVisited_eq hin
  rw [heq,Option.some_inj]
  apply List.eq_replicate_iff.mpr
  refine ⟨hlen.trans h.width,fun b hb => ?_⟩
  obtain ⟨i,hi⟩ := List.getElem?_of_mem hb
  cases b with
  | false => rfl
  | true =>
    obtain ⟨hmark,hnot⟩ := hclear i hi
    obtain ⟨hlt,_⟩ := List.getElem?_eq_some_iff.mp hmark
    rw [h.width] at hlt
    rw [h.touched] at hnot
    exact absurd ((h.marks i hlt).mp hmark) hnot

/-- The query by index: it answers, changes nothing, and is right. -/
theorem isAncestorIdx_eq (hd : d.Sound) (ancestor : Nat) {descendant : Nat} (h : descendant < d.nodes.length) :
    ∃found,d.isAncestorIdx ancestor descendant=some (found,d) ∧
      (found=true ↔ TransGen d.Parent descendant ancestor) := by
  by_cases he : ancestor=descendant
  · refine ⟨false,?_,fun hf => absurd hf Bool.false_ne_true,fun hp => ?_⟩
    · rw [Dag.isAncestorIdx,if_pos he]
      rfl
    · rw [he] at hp
      exact absurd hp (hd.acyclic _)
  · have hempty : (⟨d.visited,[],0,[]⟩ : Search).Kept d := by
      refine ⟨?_,?_,rfl,List.nodup_nil,fun i hi => absurd hi List.not_mem_nil⟩
      · rw [hd.clean,List.length_replicate]
      · intro i hi
        rw [hd.clean,List.getElem?_replicate,if_pos hi]
        simp
    obtain ⟨s,hr,hq,hh,hs⟩ := reach_eq hempty hd.fits h List.not_mem_nil
    have hfront : Frontier d.Parent descendant ancestor s.queue s.head := by
      rw [hq,hh]
      exact frontier_start
    have hstart : s.head=0 := hh
    obtain ⟨found,s',heq,hs',hfound⟩ := searchLoop_eq (maxNodes+1) hd hs hfront (by omega) (by omega)
    refine ⟨found,?_,hfound⟩
    rw [Dag.isAncestorIdx,if_neg he]
    simp only [Option.bind_eq_bind,hr,Option.bind_some,heq,resetVisited_clean hs' hd.fits,← hd.clean]
    rfl

end Search

end Bolina.Causal
