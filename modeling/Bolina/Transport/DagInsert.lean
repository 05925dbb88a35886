import Bolina.Transport.Dag

namespace Bolina.Causal

open Panic Reachability Relation

section Hashes

variable {d : Dag} {a b x : Node}

theorem nodes_inj (h : d.nodes.Nodup) : ∀(i j : Nat) (a : Node),d.nodes[i]?=some a → d.nodes[j]?=some a → i=j := by
  intro i j a hi hj
  obtain ⟨hlt,_⟩ := List.getElem?_eq_some_iff.mp hi
  exact (List.getElem?_inj hlt h).mp (hi.trans hj.symm)

/-- Both ends of an edge are nodes. -/
theorem Dag.Sound.ends (hd : d.Sound) {i j : Nat} (h : d.Parent i j) : i < d.nodes.length ∧ j < d.nodes.length := by
  obtain ⟨ps,hps,hj⟩ := h
  obtain ⟨hlt,_⟩ := List.getElem?_eq_some_iff.mp hps
  rw [hd.paired] at hlt
  exact ⟨hlt,hd.valid ps (List.mem_of_getElem? hps) j hj⟩

theorem Dag.Sound.named (hd : d.Sound) : ∀i j,d.Parent i j → ∃a,d.nodes[i]?=some a := by
  intro i j h
  exact ⟨_,List.getElem?_eq_getElem (hd.ends h).1⟩

theorem path_iff (hd : d.Sound) : TransGen d.Edge a b ↔ labelled (fun i => d.nodes[i]?) (TransGen d.Parent) a b :=
  transGen_labelled (nodes_inj hd.apart) hd.named

theorem path_at (hd : d.Sound) {i j : Nat} (hi : d.nodes[i]?=some a) (hj : d.nodes[j]?=some b) :
    TransGen d.Parent i j ↔ TransGen d.Edge a b := by
  rw [path_iff hd]
  exact labelled_at (nodes_inj hd.apart) hi hj

theorem edge_at (hd : d.Sound) {i j : Nat} (hi : d.nodes[i]?=some a) (hj : d.nodes[j]?=some b) :
    d.Parent i j ↔ d.Edge a b := labelled_at (nodes_inj hd.apart) hi hj

theorem Dag.Sound.edge_acyclic (hd : d.Sound) : Acyclic d.Edge :=
  acyclic_labelled (nodes_inj hd.apart) hd.named hd.acyclic

theorem Dag.Edge.nodes (h : d.Edge a b) : a∈d.nodes ∧ b∈d.nodes := by
  obtain ⟨i,j,hi,hj,_⟩ := h
  exact ⟨List.mem_of_getElem? hi,List.mem_of_getElem? hj⟩

/-- Both ends of a path are nodes. -/
theorem path_nodes (h : TransGen d.Edge a b) : a∈d.nodes ∧ b∈d.nodes := by
  obtain ⟨c,hac,_⟩ := TransGen.head'_iff.mp h
  obtain ⟨e,_,heb⟩ := TransGen.tail'_iff.mp h
  exact ⟨hac.nodes.1,heb.nodes.2⟩

theorem indexOf_known (h : x∈d.nodes) : ∃i,d.indexOf x=some i ∧ d.nodes[i]?=some x := by
  cases hi : d.indexOf x with
  | none =>
    have hno := List.findIdx?_eq_none_iff.mp hi x h
    simp at hno
  | some i =>
    obtain ⟨hlt,hx,_⟩ := List.findIdx?_eq_some_iff_getElem.mp hi
    refine ⟨i,rfl,?_⟩
    rw [List.getElem?_eq_getElem hlt,eq_of_beq hx]

theorem indexOf_none : d.indexOf x=none ↔ x∉d.nodes := by
  constructor
  · intro hi hx
    obtain ⟨i,hsome,_⟩ := indexOf_known hx
    rw [hi] at hsome
    cases hsome
  · intro hx
    apply List.findIdx?_eq_none_iff.mpr
    intro y hy
    apply beq_eq_false_iff_ne.mpr
    intro he
    exact hx (he ▸ hy)

/-- A hash is contained exactly if it is one of the nodes. -/
theorem contains_iff : d.contains x=true ↔ x∈d.nodes := by
  rw [Dag.contains,Option.isSome_iff_ne_none,Ne,indexOf_none,not_not]

/-- The query by hash: it answers, changes nothing, and is right. -/
theorem isAncestor_eq (hd : d.Sound) (ancestor descendant : Node) :
    ∃found,d.isAncestor ancestor descendant=some (found,d) ∧
      (found=true ↔ TransGen d.Edge descendant ancestor) := by
  by_cases ha : ancestor∈d.nodes
  · by_cases hx : descendant∈d.nodes
    · obtain ⟨i,hi,hia⟩ := indexOf_known ha
      obtain ⟨j,hj,hjx⟩ := indexOf_known hx
      obtain ⟨hlt,_⟩ := List.getElem?_eq_some_iff.mp hjx
      obtain ⟨found,heq,hfound⟩ := isAncestorIdx_eq hd i hlt
      refine ⟨found,?_,hfound.trans (path_at hd hjx hia)⟩
      rw [Dag.isAncestor,hi,hj]
      exact heq
    · refine ⟨false,?_,fun h => absurd h Bool.false_ne_true,fun h => absurd (path_nodes h).1 hx⟩
      rw [Dag.isAncestor,indexOf_none.mpr hx]
      cases d.indexOf ancestor <;> rfl
  · refine ⟨false,?_,fun h => absurd h Bool.false_ne_true,fun h => absurd (path_nodes h).2 ha⟩
    rw [Dag.isAncestor,indexOf_none.mpr ha]

end Hashes

section Intern

variable {d : Dag} {x : Node}

/-- The graph with a hash among its nodes. -/
def Dag.withNode (d : Dag) (hash : Node) : Dag :=
  if hash∈d.nodes then d else { d with nodes := d.nodes++[hash],parents := d.parents++[[]] }

def Dag.Room (d : Dag) (hash : Node) : Prop := hash∈d.nodes ∨ d.nodes.length < maxNodes

theorem withNode_known (h : x∈d.nodes) : d.withNode x=d := if_pos h

theorem withNode_fresh (h : x∉d.nodes) :
    d.withNode x={ d with nodes := d.nodes++[x],parents := d.parents++[[]] } := if_neg h

theorem intern_room (h : d.Room x) : ∃i,d.intern x=(.ok i,d.withNode x) ∧ (d.withNode x).nodes[i]?=some x := by
  by_cases hx : x∈d.nodes
  · obtain ⟨i,hi,hix⟩ := indexOf_known hx
    refine ⟨i,?_,?_⟩
    · rw [Dag.intern,hi,withNode_known hx]
    · rw [withNode_known hx]
      exact hix
  · have hlt : ¬maxNodes ≤ d.nodes.length := Nat.not_le.mpr (h.resolve_left hx)
    refine ⟨d.nodes.length,?_,?_⟩
    · rw [Dag.intern,indexOf_none.mpr hx,withNode_fresh hx]
      exact if_neg hlt
    · rw [withNode_fresh hx,List.getElem?_concat_length]

theorem intern_full (h : ¬d.Room x) : d.intern x=(.error .Overflow,d) := by
  rw [Dag.Room,not_or,Nat.not_lt] at h
  rw [Dag.intern,indexOf_none.mpr h.1]
  exact if_pos h.2

theorem mem_withNode {y : Node} : y∈(d.withNode x).nodes ↔ y∈d.nodes ∨ y=x := by
  by_cases hx : x∈d.nodes
  · rw [withNode_known hx]
    refine (or_iff_left_of_imp ?_).symm
    intro h
    rw [h]
    exact hx
  · rw [withNode_fresh hx,List.mem_append,List.mem_singleton]

theorem getElem?_concat_nil {xs : List (List Nat)} {i : Nat} {ps : List Nat} (h : (xs++[[]])[i]?=some ps) :
    xs[i]?=some ps ∨ ps=[] := by
  by_cases hlt : i < xs.length
  · exact Or.inl ((List.getElem?_append_left hlt).symm.trans h)
  · have hback : ([[]] : List (List Nat))[i-xs.length]?=some ps :=
      (List.getElem?_append_right (Nat.not_lt.mp hlt)).symm.trans h
    exact Or.inr (List.mem_singleton.mp (List.mem_of_getElem? hback))

/-- A new node has no parents, and the others keep theirs. -/
theorem withNode_parent : (d.withNode x).Parent=d.Parent := by
  by_cases hx : x∈d.nodes
  · rw [withNode_known hx]
  · rw [withNode_fresh hx]
    funext i j
    apply propext
    constructor
    · intro h
      obtain ⟨ps,hps,hj⟩ := h
      obtain hps | hps := getElem?_concat_nil hps
      · exact ⟨ps,hps,hj⟩
      · rw [hps] at hj
        exact absurd hj List.not_mem_nil
    · intro h
      obtain ⟨ps,hps,hj⟩ := h
      obtain ⟨hlt,_⟩ := List.getElem?_eq_some_iff.mp hps
      exact ⟨ps,(List.getElem?_append_left hlt).trans hps,hj⟩

theorem withNode_getElem? {i : Nat} (h : i < d.nodes.length) : (d.withNode x).nodes[i]?=d.nodes[i]? := by
  by_cases hx : x∈d.nodes
  · rw [withNode_known hx]
  · rw [withNode_fresh hx]
    exact List.getElem?_append_left h

/-- A new node leaves the edges as they are. -/
theorem withNode_edge (hd : d.Sound) : (d.withNode x).Edge=d.Edge := by
  funext a b
  apply propext
  constructor
  · intro h
    obtain ⟨i,j,hi,hj,hij⟩ := h
    rw [withNode_parent] at hij
    obtain ⟨hilt,hjlt⟩ := hd.ends hij
    exact ⟨i,j,(withNode_getElem? hilt).symm.trans hi,(withNode_getElem? hjlt).symm.trans hj,hij⟩
  · intro h
    obtain ⟨i,j,hi,hj,hij⟩ := h
    obtain ⟨hilt,hjlt⟩ := hd.ends hij
    refine ⟨i,j,(withNode_getElem? hilt).trans hi,(withNode_getElem? hjlt).trans hj,?_⟩
    rw [withNode_parent]
    exact hij

theorem withNode_sound (hd : d.Sound) (h : d.Room x) : (d.withNode x).Sound := by
  by_cases hx : x∈d.nodes
  · rw [withNode_known hx]
    exact hd
  · have hacyclic : Acyclic (d.withNode x).Parent := by
      rw [withNode_parent]
      exact hd.acyclic
    rw [withNode_fresh hx] at hacyclic ⊢
    refine ⟨?_,?_,?_,?_,hd.clean,hacyclic⟩
    · rw [List.nodup_append_comm,List.singleton_append,List.nodup_cons]
      exact ⟨hx,hd.apart⟩
    · simp [hd.paired]
    · rw [List.length_append]
      exact h.resolve_left hx
    · intro ps hps p hp
      obtain hps | hps := List.mem_append.mp hps
      · rw [List.length_append]
        exact (hd.valid ps hps p hp).trans_le (Nat.le_add_right _ _)
      · rw [List.mem_singleton.mp hps] at hp
        exact absurd hp List.not_mem_nil

end Intern

section Wire

variable {d : Dag} {i j : Nat} {ps : List Nat}

/-- The graph with one more parent of a node. -/
def Dag.wired (d : Dag) (i j : Nat) (ps : List Nat) : Dag := { d with parents := d.parents.set i (ps++[j]) }

theorem wired_parent (h : d.parents[i]?=some ps) : (d.wired i j ps).Parent=addEdge d.Parent i j := by
  obtain ⟨hlt,_⟩ := List.getElem?_eq_some_iff.mp h
  funext k l
  apply propext
  by_cases hk : i=k
  · subst hk
    have hset : (d.wired i j ps).parents[i]?=some (ps++[j]) := List.getElem?_set_self hlt
    constructor
    · intro hl
      obtain ⟨qs,hqs,hl⟩ := hl
      rw [hset] at hqs
      cases hqs
      obtain hl | hl := List.mem_append.mp hl
      · exact Or.inl ⟨ps,h,hl⟩
      · exact Or.inr ⟨rfl,List.mem_singleton.mp hl⟩
    · intro hl
      refine ⟨ps++[j],hset,List.mem_append.mpr ?_⟩
      obtain ⟨qs,hqs,hl⟩ | ⟨_,hl⟩ := hl
      · rw [h] at hqs
        cases hqs
        exact Or.inl hl
      · exact Or.inr (List.mem_singleton.mpr hl)
  · have hset : (d.wired i j ps).parents[k]?=d.parents[k]? := List.getElem?_set_ne hk
    constructor
    · intro hl
      obtain ⟨qs,hqs,hl⟩ := hl
      exact Or.inl ⟨qs,hset.symm.trans hqs,hl⟩
    · intro hl
      obtain ⟨qs,hqs,hl⟩ := hl.resolve_right (fun he => hk he.1.symm)
      exact ⟨qs,hset.trans hqs,hl⟩

/-- An edge that closes no cycle keeps the graph sound. -/
theorem wired_sound (hd : d.Sound) (h : d.parents[i]?=some ps) (hj : j < d.nodes.length)
    (hapart : ¬ReflTransGen d.Parent j i) : (d.wired i j ps).Sound := by
  refine ⟨hd.apart,?_,hd.fits,?_,hd.clean,?_⟩
  · rw [Dag.wired,List.length_set]
    exact hd.paired
  · intro qs hqs q hq
    obtain hqs | hqs := List.mem_or_eq_of_mem_set hqs
    · exact hd.valid qs hqs q hq
    · rw [hqs] at hq
      obtain hq | hq := List.mem_append.mp hq
      · exact hd.valid ps (List.mem_of_getElem? h) q hq
      · rw [List.mem_singleton.mp hq]
        exact hj
  · rw [wired_parent h]
    exact (acyclic_addEdge_iff hd.acyclic).mpr hapart

theorem wired_edge (h : d.parents[i]?=some ps) {child parent : Node} (hi : d.nodes[i]?=some child)
    (hj : d.nodes[j]?=some parent) : (d.wired i j ps).Edge=addEdge d.Edge child parent := by
  funext a b
  apply propext
  rw [Dag.Edge,wired_parent h]
  exact labelled_addEdge hi hj a b

end Wire

section Insert

variable {d : Dag} {parent child : Node}

/-- A child that takes no more parents. -/
def Dag.Crowded (d : Dag) (child : Node) : Prop :=
  ∃(i : Nat) (ps : List Nat),d.nodes[i]?=some child ∧ d.parents[i]?=some ps ∧ maxParents ≤ ps.length

theorem Dag.Crowded.node (h : d.Crowded child) : child∈d.nodes := by
  obtain ⟨i,_,hi,_⟩ := h
  exact List.mem_of_getElem? hi

/-- A new node is not crowded, and the others are as crowded as before. -/
theorem crowded_withNode (hd : d.Sound) {x : Node} : (d.withNode x).Crowded child ↔ d.Crowded child := by
  by_cases hx : x∈d.nodes
  · rw [withNode_known hx]
  · rw [withNode_fresh hx]
    constructor
    · intro h
      obtain ⟨i,ps,hi,hps,hfull⟩ := h
      obtain hps | hps := getElem?_concat_nil hps
      · obtain ⟨hlt,_⟩ := List.getElem?_eq_some_iff.mp hps
        rw [hd.paired] at hlt
        exact ⟨i,ps,(List.getElem?_append_left hlt).symm.trans hi,hps,hfull⟩
      · rw [hps] at hfull
        exact absurd hfull (by decide)
    · intro h
      obtain ⟨i,ps,hi,hps,hfull⟩ := h
      obtain ⟨hlt',_⟩ := List.getElem?_eq_some_iff.mp hi
      obtain ⟨hlt,_⟩ := List.getElem?_eq_some_iff.mp hps
      exact ⟨i,ps,(List.getElem?_append_left hlt').trans hi,(List.getElem?_append_left hlt).trans hps,hfull⟩

/-- The ways an insert ends. -/
inductive Dag.Inserting (d : Dag) (parent child : Node) : Except DagError Unit → Dag → Prop
  | loop (h : parent=child) : Inserting d parent child (.error .Cyclic) d
  | noParent (hne : parent≠child) (hp : ¬d.Room parent) : Inserting d parent child (.error .Overflow) d
  | noChild (hne : parent≠child) (hp : d.Room parent) (hc : ¬(d.withNode parent).Room child) :
      Inserting d parent child (.error .Overflow) (d.withNode parent)
  | cyclic (h : TransGen d.Edge parent child) : Inserting d parent child (.error .Cyclic) d
  | known (h : d.Edge child parent) : Inserting d parent child (.ok ()) d
  | crowded (hne : parent≠child) (hp : d.Room parent) (hapart : ¬TransGen d.Edge parent child)
      (hnew : ¬d.Edge child parent) (hc : d.Crowded child) :
      Inserting d parent child (.error .Overflow) (d.withNode parent)
  | added (hne : parent≠child) (hapart : ¬TransGen d.Edge parent child) (hc : ¬d.Crowded child) (d' : Dag)
      (hd' : d'.Sound) (hnodes : d'.nodes=((d.withNode parent).withNode child).nodes) (hedge : d'.Edge=addEdge d.Edge child parent) :
      Inserting d parent child (.ok ()) d'

theorem crowded_at (hd : d.Sound) {i : Nat} {ps : List Nat} (hi : d.nodes[i]?=some child)
    (hps : d.parents[i]?=some ps) : d.Crowded child ↔ maxParents ≤ ps.length := by
  constructor
  · intro h
    obtain ⟨i',qs,hi',hqs,hfull⟩ := h
    rw [nodes_inj hd.apart i' i _ hi' hi,hps] at hqs
    cases hqs
    exact hfull
  · intro h
    exact ⟨i,ps,hi,hps,h⟩

/-- The part of `insert` behind its two interns. -/
def Dag.link (d : Dag) (pidx cidx : Nat) : Option (Except DagError Unit × Dag) := do
  let (found,d) ← d.isAncestorIdx cidx pidx
  if found then return (.error .Cyclic,d)
  else
    let ps ← index d.parents cidx
    if pidx∈ps then return (.ok (),d)
    else if maxParents ≤ ps.length then return (.error .Overflow,d)
    else
      let parents ← setAt d.parents cidx (ps++[pidx])
      return (.ok (),{ d with parents })

theorem insert_link (hne : parent≠child) {pidx cidx : Nat} {d₁ d₂ : Dag} (hp : d.intern parent=(.ok pidx,d₁))
    (hc : d₁.intern child=(.ok cidx,d₂)) : d.insert parent child=d₂.link pidx cidx := by
  rw [Dag.insert,if_neg hne]
  simp only [hp,hc]
  rfl

/-- Between two nodes the edge closes a cycle, is there already, finds no room, or goes in. -/
theorem link_cases (hd : d.Sound) {pidx cidx : Nat} (hp : d.nodes[pidx]?=some parent) (hc : d.nodes[cidx]?=some child) :
    (TransGen d.Edge parent child ∧ d.link pidx cidx=some (.error .Cyclic,d)) ∨
    (d.Edge child parent ∧ d.link pidx cidx=some (.ok (),d)) ∨
    (¬TransGen d.Edge parent child ∧ ¬d.Edge child parent ∧ d.Crowded child ∧
      d.link pidx cidx=some (.error .Overflow,d)) ∨
    (¬TransGen d.Edge parent child ∧ ¬d.Crowded child ∧
      ∃ps,d.parents[cidx]?=some ps ∧ d.link pidx cidx=some (.ok (),d.wired cidx pidx ps)) := by
  obtain ⟨hplt,_⟩ := List.getElem?_eq_some_iff.mp hp
  obtain ⟨hclt,_⟩ := List.getElem?_eq_some_iff.mp hc
  obtain ⟨found,hfound,hpath⟩ := isAncestorIdx_eq hd cidx hplt
  rw [path_at hd hp hc] at hpath
  rw [Dag.link]
  simp only [Option.bind_eq_bind,hfound,Option.bind_some]
  cases found with
  | true => exact Or.inl ⟨hpath.mp rfl,rfl⟩
  | false =>
    have hapart : ¬TransGen d.Edge parent child := fun h => Bool.false_ne_true (hpath.mpr h)
    have hlt : cidx < d.parents.length := by
      rw [hd.paired]
      exact hclt
    have hps : d.parents[cidx]?=some d.parents[cidx] := List.getElem?_eq_getElem hlt
    have hidx : index d.parents cidx=some d.parents[cidx] := hps
    simp only [hidx,Bool.false_eq_true,if_false,Option.bind_some]
    generalize d.parents[cidx]=ps at hps
    have hedge : pidx∈ps ↔ d.Edge child parent := by
      rw [← edge_at hd hc hp,Dag.Parent,hps]
      simp
    by_cases hin : pidx∈ps
    · rw [if_pos hin]
      exact Or.inr (Or.inl ⟨hedge.mp hin,rfl⟩)
    · rw [if_neg hin]
      by_cases hfull : maxParents ≤ ps.length
      · rw [if_pos hfull]
        exact Or.inr (Or.inr (Or.inl ⟨hapart,fun h => hin (hedge.mpr h),(crowded_at hd hc hps).mpr hfull,rfl⟩))
      · have hset : setAt d.parents cidx (ps++[pidx])=some (d.wired cidx pidx ps).parents := if_pos hlt
        rw [if_neg hfull,hset]
        exact Or.inr (Or.inr (Or.inr ⟨hapart,fun h => hfull ((crowded_at hd hc hps).mp h),ps,hps,rfl⟩))

/-- The insert behind its two interns. -/
theorem insert_interned (hd : d.Sound) (hne : parent≠child) (hp : d.Room parent) (hc : (d.withNode parent).Room child) :
    ∃res d',d.insert parent child=some (res,d') ∧ d.Inserting parent child res d' := by
  have hd₁ : (d.withNode parent).Sound := withNode_sound hd hp
  have hd₂ : ((d.withNode parent).withNode child).Sound := withNode_sound hd₁ hc
  have hedge : ((d.withNode parent).withNode child).Edge=d.Edge := (withNode_edge hd₁).trans (withNode_edge hd)
  have hcrowded : ((d.withNode parent).withNode child).Crowded child ↔ d.Crowded child :=
    (crowded_withNode hd₁).trans (crowded_withNode hd)
  have hboth : parent∈d.nodes → child∈d.nodes → (d.withNode parent).withNode child=d := by
    intro hp hc
    rw [withNode_known hp,withNode_known hc]
  obtain ⟨pidx,hi,hpidx⟩ := intern_room hp
  obtain ⟨cidx,hi',hcidx⟩ := intern_room hc
  obtain ⟨hplt,_⟩ := List.getElem?_eq_some_iff.mp hpidx
  have hpidx' : ((d.withNode parent).withNode child).nodes[pidx]?=some parent := (withNode_getElem? hplt).trans hpidx
  have hcases := link_cases hd₂ hpidx' hcidx
  rw [hedge,hcrowded] at hcases
  rw [insert_link hne hi hi']
  obtain ⟨hcyc,heq⟩ | ⟨he,heq⟩ | ⟨hapart,hnew,hcrowd,heq⟩ | ⟨hapart,hroom,ps,hps,heq⟩ := hcases
  · refine ⟨_,_,heq,?_⟩
    rw [hboth (path_nodes hcyc).1 (path_nodes hcyc).2]
    exact .cyclic hcyc
  · refine ⟨_,_,heq,?_⟩
    rw [hboth he.nodes.2 he.nodes.1]
    exact .known he
  · refine ⟨_,_,heq,?_⟩
    rw [withNode_known (mem_withNode.mpr (Or.inl hcrowd.node))]
    exact .crowded hne hp hapart hnew hcrowd
  · have hrefl : ¬ReflTransGen ((d.withNode parent).withNode child).Parent pidx cidx := by
      intro h
      obtain he | h := reflTransGen_iff_eq_or_transGen.mp h
      · rw [he,hpidx'] at hcidx
        exact hne (Option.some.inj hcidx)
      · rw [path_at hd₂ hpidx' hcidx,hedge] at h
        exact hapart h
    obtain ⟨hplt',_⟩ := List.getElem?_eq_some_iff.mp hpidx'
    refine ⟨_,_,heq,.added hne hapart hroom _ (wired_sound hd₂ hps hplt' hrefl) rfl ?_⟩
    rw [← hedge]
    exact wired_edge hps hcidx hpidx'

theorem insert_inserting (hd : d.Sound) (parent child : Node) :
    ∃res d',d.insert parent child=some (res,d') ∧ d.Inserting parent child res d' := by
  by_cases hne : parent=child
  · refine ⟨_,d,?_,.loop hne⟩
    rw [Dag.insert,if_pos hne]
    rfl
  · by_cases hp : d.Room parent
    · by_cases hc : (d.withNode parent).Room child
      · exact insert_interned hd hne hp hc
      · obtain ⟨pidx,hi,_⟩ := intern_room hp
        refine ⟨_,_,?_,.noChild hne hp hc⟩
        rw [Dag.insert,if_neg hne]
        simp only [hi,intern_full hc]
        rfl
    · refine ⟨_,d,?_,.noParent hne hp⟩
      rw [Dag.insert,if_neg hne]
      simp only [intern_full hp]
      rfl

namespace Dag.Inserting

variable {res : Except DagError Unit} {d' : Dag}

theorem sound (h : d.Inserting parent child res d') (hd : d.Sound) : d'.Sound := by
  cases h with
  | loop => exact hd
  | noParent => exact hd
  | noChild hne hp hc => exact withNode_sound hd hp
  | cyclic => exact hd
  | known => exact hd
  | crowded hne hp => exact withNode_sound hd hp
  | added _ _ _ _ hd' => exact hd'

/-- What is refused leaves the edges as they are. -/
theorem edge_error {e : DagError} (h : d.Inserting parent child (.error e) d') (hd : d.Sound) : d'.Edge=d.Edge := by
  cases h with
  | loop => rfl
  | noParent => rfl
  | noChild => exact withNode_edge hd
  | cyclic => rfl
  | crowded => exact withNode_edge hd

/-- What is accepted is recorded. -/
theorem edge_ok (h : d.Inserting parent child (.ok ()) d') : d'.Edge=addEdge d.Edge child parent := by
  cases h with
  | known h =>
    funext a b
    exact propext (addEdge_of_edge h a b).symm
  | added _ _ _ _ _ _ hedge => exact hedge

/-- The answer is `Cyclic` exactly on an edge that closes a cycle. -/
theorem cyclic_iff (h : d.Inserting parent child res d') (hd : d.Sound) :
    res=.error .Cyclic ↔ ¬Acyclic (addEdge d.Edge child parent) := by
  rw [acyclic_addEdge_iff hd.edge_acyclic,not_not,reflTransGen_iff_eq_or_transGen]
  have hoverflow : (.error .Overflow : Except DagError Unit)≠.error .Cyclic := by decide
  cases h with
  | loop h => exact iff_of_true rfl (Or.inl h.symm)
  | noParent hne hp =>
    refine iff_of_false hoverflow (fun h => ?_)
    obtain h | h := h
    · exact hne h.symm
    · exact hp (Or.inl (path_nodes h).1)
  | noChild hne _ hc =>
    refine iff_of_false hoverflow (fun h => ?_)
    obtain h | h := h
    · exact hne h.symm
    · exact hc (Or.inl (mem_withNode.mpr (Or.inl (path_nodes h).2)))
  | cyclic h => exact iff_of_true rfl (Or.inr h)
  | known h =>
    refine iff_of_false (by decide) (fun h' => ?_)
    obtain h' | h' := h'
    · rw [h'] at h
      exact hd.edge_acyclic _ (TransGen.single h)
    · exact hd.edge_acyclic _ (h'.tail h)
  | crowded hne _ hapart =>
    refine iff_of_false hoverflow (fun h => ?_)
    obtain h | h := h
    · exact hne h.symm
    · exact hapart h
  | added hne hapart =>
    refine iff_of_false (by decide) (fun h => ?_)
    obtain h | h := h
    · exact hne h.symm
    · exact hapart h

end Dag.Inserting

end Insert

end Bolina.Causal
