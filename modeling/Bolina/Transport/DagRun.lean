import Bolina.Transport.DagInsert

namespace Bolina.Causal

open Panic Reachability Relation

inductive DagOp where
  | insert (parent child : Node)
  | isAncestor (ancestor descendant : Node)

def Dag.act (d : Dag) : DagOp → Option Dag
  | .insert parent child => (d.insert parent child).map Prod.snd
  | .isAncestor ancestor descendant => (d.isAncestor ancestor descendant).map Prod.snd

def Dag.runs (d : Dag) (ops : List DagOp) : Option Dag := ops.foldlM Dag.act d

section Runs

variable {d : Dag}

theorem new_sound : Dag.new.Sound := by
  have hempty : ∀i j,¬Dag.new.Parent i j := by
    intro i j h
    obtain ⟨ps,hps,_⟩ := h
    cases hps
  refine ⟨List.nodup_nil,rfl,Nat.zero_le _,fun ps hps => absurd hps List.not_mem_nil,rfl,fun i h => ?_⟩
  obtain ⟨j,hij,_⟩ := TransGen.head'_iff.mp h
  exact hempty i j hij

theorem act_insert (hd : d.Sound) (parent child : Node) :
    ∃res d',d.act (.insert parent child)=some d' ∧ d.Inserting parent child res d' := by
  obtain ⟨res,d',heq,hi⟩ := insert_inserting hd parent child
  refine ⟨res,d',?_,hi⟩
  rw [Dag.act,heq]
  rfl

theorem act_isAncestor (hd : d.Sound) (ancestor descendant : Node) : d.act (.isAncestor ancestor descendant)=some d := by
  obtain ⟨found,heq,_⟩ := isAncestor_eq hd ancestor descendant
  rw [Dag.act,heq]
  rfl

theorem act_sound (hd : d.Sound) (op : DagOp) : ∃d',d.act op=some d' ∧ d'.Sound := by
  cases op with
  | insert parent child =>
    obtain ⟨res,d',hact,hi⟩ := act_insert hd parent child
    exact ⟨d',hact,hi.sound hd⟩
  | isAncestor ancestor descendant => exact ⟨d,act_isAncestor hd ancestor descendant,hd⟩

/-- Every run ends, in a sound graph. -/
theorem runs_sound (hd : d.Sound) (ops : List DagOp) : ∃d',d.runs ops=some d' ∧ d'.Sound := by
  induction ops generalizing d with
  | nil => exact ⟨d,rfl,hd⟩
  | cons op ops ih =>
    obtain ⟨d₁,hact,hd₁⟩ := act_sound hd op
    obtain ⟨d',hruns,hd'⟩ := ih hd₁
    refine ⟨d',?_,hd'⟩
    rw [Dag.runs,List.foldlM_cons,hact]
    exact hruns

/-- Behind every run the graph is acyclic, its parents are nodes and its bitmap is clean. An insert
answers `Cyclic` to just the edges that close a cycle and records the edge where it is `Ok`, and a
query is true of just the paths. -/
theorem dag_correct (ops : List DagOp) :
    ∃d,Dag.new.runs ops=some d ∧ Acyclic d.Parent ∧ Acyclic d.Edge ∧ (∀ps∈d.parents,∀p∈ps,p < d.nodes.length) ∧
      d.visited=List.replicate maxNodes false ∧
      (∀parent child,∃res d',d.insert parent child=some (res,d') ∧
        (res=.error .Cyclic ↔ ¬Acyclic (addEdge d.Edge child parent)) ∧
        d'.Edge=if res=.ok () then addEdge d.Edge child parent else d.Edge) ∧
      ∀ancestor descendant,∃found,d.isAncestor ancestor descendant=some (found,d) ∧
        (found=true ↔ TransGen d.Edge descendant ancestor) := by
  obtain ⟨d,hruns,hd⟩ := runs_sound new_sound ops
  refine ⟨d,hruns,hd.acyclic,hd.edge_acyclic,hd.valid,hd.clean,fun parent child => ?_,isAncestor_eq hd⟩
  obtain ⟨res,d',heq,hi⟩ := insert_inserting hd parent child
  refine ⟨res,d',heq,hi.cyclic_iff hd,?_⟩
  cases res with
  | ok => exact hi.edge_ok
  | error => exact hi.edge_error hd

end Runs

section Atomic

variable {d : Dag} {parent child : Node}

/-- A refused insert leaves the nodes and the edges as they are. -/
def Dag.InsertAtomic (d : Dag) (parent child : Node) : Prop :=
  ∀e d',d.insert parent child=some (.error e,d') →
    d'.nodes=d.nodes ∧ d'.Edge=d.Edge ∧ ∀x,d'.contains x=d.contains x

/-- A parent that goes in before its child is refused: the one place left is the parent's, or the
child is crowded. -/
def Dag.Leaves (d : Dag) (parent child : Node) : Prop :=
  parent≠child ∧ parent∉d.nodes ∧ d.nodes.length < maxNodes ∧
    (child∉d.nodes ∧ d.nodes.length+1=maxNodes ∨ d.Crowded child)

/-- A parent that is known is not left behind. -/
theorem not_leaves_of_known (h : parent∈d.nodes) : ¬d.Leaves parent child := fun hl => hl.2.1 h

theorem withNode_nodes_iff : (d.withNode parent).nodes=d.nodes ↔ parent∈d.nodes := by
  constructor
  · intro h
    rw [← h]
    exact mem_withNode.mpr (Or.inr rfl)
  · intro h
    rw [withNode_known h]

namespace Dag.Inserting

variable {d' : Dag}

theorem kept_iff {e : DagError} (h : d.Inserting parent child (.error e) d') :
    d'.nodes=d.nodes ↔ ¬d.Leaves parent child := by
  cases h with
  | loop h => exact iff_of_true rfl (fun hl => hl.1 h)
  | noParent _ hp => exact iff_of_true rfl (fun hl => hp (Or.inr hl.2.2.1))
  | noChild hne hp hc =>
    rw [withNode_nodes_iff]
    refine ⟨not_leaves_of_known,fun hl => by_contra (fun hnew => hl ?_)⟩
    rw [Dag.Room,not_or,mem_withNode,not_or,withNode_fresh hnew,List.length_append,Nat.not_lt] at hc
    obtain ⟨⟨hc,_⟩,hfull⟩ := hc
    have hlt : d.nodes.length < maxNodes := hp.resolve_left hnew
    exact ⟨hne,hnew,hlt,Or.inl ⟨hc,le_antisymm hlt hfull⟩⟩
  | cyclic h => exact iff_of_true rfl (not_leaves_of_known (path_nodes h).1)
  | crowded hne hp _ _ hc =>
    rw [withNode_nodes_iff]
    refine ⟨not_leaves_of_known,fun hl => by_contra (fun hnew => hl ?_)⟩
    exact ⟨hne,hnew,hp.resolve_left hnew,Or.inr hc⟩

theorem not_leaves (h : d.Inserting parent child (.ok ()) d') : ¬d.Leaves parent child := by
  cases h with
  | known h => exact not_leaves_of_known h.nodes.2
  | added hne _ hc d' hd' hnodes =>
    intro hl
    obtain ⟨_,hnew,_,hl⟩ := hl
    obtain ⟨hl,hfull⟩ := hl.resolve_right hc
    have hchild : child∉(d.withNode parent).nodes := by
      rw [mem_withNode,not_or]
      exact ⟨hl,hne.symm⟩
    have hfits := hd'.fits
    rw [hnodes,withNode_fresh hchild,withNode_fresh hnew,List.length_append,List.length_append,
      List.length_singleton,List.length_singleton,hfull] at hfits
    exact absurd hfits (Nat.not_succ_le_self _)

end Dag.Inserting

theorem insertAtomic_iff (hd : d.Sound) : d.InsertAtomic parent child ↔ ¬d.Leaves parent child := by
  obtain ⟨res,d',heq,hi⟩ := insert_inserting hd parent child
  cases res with
  | ok =>
    refine iff_of_true (fun e d' h => ?_) hi.not_leaves
    rw [heq] at h
    cases h
  | error e =>
    rw [← hi.kept_iff]
    constructor
    · intro h
      exact (h e d' heq).1
    · intro h e' d'' h'
      rw [heq] at h'
      cases h'
      refine ⟨h,hi.edge_error hd,fun x => ?_⟩
      rw [Bool.eq_iff_iff,contains_iff,contains_iff,h]

/-- Behind every run a refused insert leaves no trace, unless its parent went in first. -/
theorem dag_insert_atomic_iff (ops : List DagOp) (parent child : Node) :
    ∃d,Dag.new.runs ops=some d ∧ (d.InsertAtomic parent child ↔ ¬d.Leaves parent child) := by
  obtain ⟨d,hruns,hd⟩ := runs_sound new_sound ops
  exact ⟨d,hruns,insertAtomic_iff hd⟩

def sampleNode (n : UInt8) : Node := List.Vector.replicate nodeBytes n

/-- Eight parents of one node. -/
def eightParents : List DagOp := (List.range 8).map (fun n => .insert (sampleNode (UInt8.ofNat n)) (sampleNode 100))

/-- The ninth parent is refused and stays behind as a node. -/
theorem ninth_parent_stays :
    ∃d d',Dag.new.runs eightParents=some d ∧ d.insert (sampleNode 9) (sampleNode 100)=some (.error .Overflow,d') ∧
      d.contains (sampleNode 9)=false ∧ d'.contains (sampleNode 9)=true ∧ ¬d.InsertAtomic (sampleNode 9) (sampleNode 100) := by
  let d : Dag := ⟨(0::100::(List.range 7).map (fun n => UInt8.ofNat (n+1))).map sampleNode,
    [[],[0,2,3,4,5,6,7,8],[],[],[],[],[],[],[]],List.replicate maxNodes false⟩
  have hruns : Dag.new.runs eightParents=some d := by decide +kernel
  have hins : d.insert (sampleNode 9) (sampleNode 100)=some (.error .Overflow,d.withNode (sampleNode 9)) := by
    decide +kernel
  have hno : d.contains (sampleNode 9)=false := by decide +kernel
  have hyes : (d.withNode (sampleNode 9)).contains (sampleNode 9)=true := by decide +kernel
  refine ⟨d,d.withNode (sampleNode 9),hruns,hins,hno,hyes,fun h => ?_⟩
  have hsame := (h _ _ hins).2.2 (sampleNode 9)
  rw [hno,hyes] at hsame
  cases hsame

end Atomic

end Bolina.Causal
