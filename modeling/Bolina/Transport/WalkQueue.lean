import Bolina.Transport.SyncResponse
import Mathlib.Data.Set.Card
import Mathlib.Logic.Relation

namespace Bolina.Sync

def walkMaxDepth : Nat := 128
def walkMaxTotal : Nat := 4096

inductive SyncError where
  | NoSession
  | NotMember
  | Revoked
  | RateLimited
  | WalkExhausted
  | BadEnvelope
  | BufferTooSmall
  deriving DecidableEq,Repr

structure WalkQueue where
  queue : List Hash
  visited : List Hash
  depth : Nat
  unresolved : List Hash
  deriving DecidableEq

def WalkQueue.new (root : Hash) : WalkQueue := ⟨[root],[root],0,[]⟩

def WalkQueue.push (w : WalkQueue) (hash : Hash) : Except SyncError Unit × WalkQueue :=
  if walkMaxTotal ≤ w.visited.length then (.error .WalkExhausted,w)
  else if w.visited.any (fun v => v == hash) then (.ok (),w)
  else (.ok (),{ w with visited := w.visited++[hash],queue := w.queue++[hash] })

def WalkQueue.next (w : WalkQueue) : Option Hash × WalkQueue :=
  if walkMaxDepth ≤ w.depth then (none,w)
  else
    match w.queue with
    | [] => (none,w)
    | h::queue => (some h,{ w with queue,depth := w.depth+1 })

def WalkQueue.record (w : WalkQueue) (hash : Hash) (resolved : Bool) : WalkQueue :=
  if resolved=false ∧ ¬w.unresolved.contains hash then { w with unresolved := w.unresolved++[hash] } else w

section Driver

variable (parents : Hash → List Hash) (resolved : Hash → Bool)

def WalkQueue.pushAll (w : WalkQueue) (hashes : List Hash) : WalkQueue := hashes.foldl (fun w h => (w.push h).2) w

/-- What the driver does with a hash that it has popped. -/
def WalkQueue.handle (w : WalkQueue) (h : Hash) : WalkQueue :=
  if resolved h then (w.record h true).pushAll (parents h) else w.record h false

/-- The hashes that `next` returns until it returns none, if it does so in `fuel` calls. -/
def drive : Nat → WalkQueue → Option (List Hash × WalkQueue)
  | 0,_ => none
  | fuel+1,w =>
    match w.next with
    | (none,w) => some ([],w)
    | (some h,w) => (drive fuel (w.handle parents resolved h)).map (fun r => (h::r.1,r.2))

/-- The walk returned each hash once, the root and the parents of what it resolved
and nothing else, and lists what it did not resolve. -/
structure Covers (root : Hash) (pops : List Hash) (w : WalkQueue) : Prop where
  once : pops.Nodup
  start : root∈pops
  follow : ∀h∈pops,resolved h=true → ∀p∈parents h,p∈pops
  only : ∀h∈pops,h=root ∨ ∃h'∈pops,resolved h'=true ∧ h∈parents h'
  unresolvedOnce : w.unresolved.Nodup
  unresolved : ∀h,h∈w.unresolved ↔ h∈pops ∧ resolved h=false

/-- One resolved step of the graph. -/
def Leads (h p : Hash) : Prop := resolved h=true ∧ p∈parents h

/-- What the root leads to. -/
def reached (root : Hash) : Set Hash := {h | Relation.ReflTransGen (Leads parents resolved) root h}

/-- A walk on its way: what was visited was popped before or waits in the queue. -/
structure Walked (root : Hash) (w : WalkQueue) (pops : List Hash) : Prop where
  visited : w.visited=pops++w.queue
  once : w.visited.Nodup
  depth : w.depth=pops.length
  bound : pops.length ≤ walkMaxDepth
  start : root∈w.visited
  only : ∀h∈w.visited,h=root ∨ ∃h'∈pops,resolved h'=true ∧ h∈parents h'
  reaches : ∀h∈w.visited,h∈reached parents resolved root
  pushed : w.visited.length < walkMaxTotal → ∀h∈pops,resolved h=true → ∀p∈parents h,p∈w.visited
  unresolved : w.unresolved=pops.filter (fun h => !resolved h)

variable {parents resolved} {root : Hash} {w : WalkQueue} {pops : List Hash}

theorem walked_new (root : Hash) : Walked parents resolved root (WalkQueue.new root) [] where
  visited := rfl
  once := List.nodup_singleton root
  depth := rfl
  bound := Nat.zero_le _
  start := List.mem_singleton_self root
  only _ hh := .inl (List.mem_singleton.mp hh)
  reaches _ hh := List.mem_singleton.mp hh ▸ Relation.ReflTransGen.refl
  pushed _ _ hh := absurd hh List.not_mem_nil
  unresolved := rfl

/-- What a push adds, it adds to both lists. -/
theorem pushAll_spec (w : WalkQueue) (hashes : List Hash) (hw : w.visited.Nodup) :
    ∃more,w.pushAll hashes={ w with visited := w.visited++more,queue := w.queue++more } ∧ (w.visited++more).Nodup ∧
      more⊆hashes ∧ ((w.visited++more).length < walkMaxTotal → hashes⊆w.visited++more) := by
  induction hashes generalizing w with
  | nil => exact ⟨[],by simp [WalkQueue.pushAll],by simpa using hw,List.nil_subset _,fun _ => List.nil_subset _⟩
  | cons p hashes ih =>
    rw [WalkQueue.pushAll,List.foldl_cons,← WalkQueue.pushAll,WalkQueue.push]
    by_cases hfull : walkMaxTotal ≤ w.visited.length
    · rw [if_pos hfull]
      obtain ⟨more,hrun,hnodup,hsub,_⟩ := ih w hw
      refine ⟨more,hrun,hnodup,List.subset_cons_of_subset p hsub,?_⟩
      intro hlt
      rw [List.length_append] at hlt
      omega
    · rw [if_neg hfull]
      by_cases hseen : w.visited.any (fun v => v == p)=true
      · have hmem : p∈w.visited := by simpa using hseen
        rw [if_pos hseen]
        obtain ⟨more,hrun,hnodup,hsub,hall⟩ := ih w hw
        exact ⟨more,hrun,hnodup,List.subset_cons_of_subset p hsub,
          fun hlt => List.cons_subset.mpr ⟨List.mem_append_left _ hmem,hall hlt⟩⟩
      · have hnew : p∉w.visited := by simpa using hseen
        rw [if_neg hseen]
        obtain ⟨more,hrun,hnodup,hsub,hall⟩ := ih { w with visited := w.visited++[p],queue := w.queue++[p] }
          (List.nodup_append.mpr ⟨hw,List.nodup_singleton p,fun a ha b hb he =>
            hnew (List.mem_singleton.mp hb ▸ he ▸ ha)⟩)
        dsimp only at hrun hnodup hall
        rw [List.append_assoc,List.singleton_append] at hrun hnodup hall
        rw [List.append_assoc,List.singleton_append] at hrun
        exact ⟨p::more,hrun,hnodup,List.cons_subset_cons p hsub,fun hlt => List.cons_subset.mpr ⟨by simp,hall hlt⟩⟩

section Popped

variable {x : Hash} {queue : List Hash}

theorem Walked.visited_popped (h : Walked parents resolved root w pops) (hq : w.queue=x::queue) :
    w.visited=(pops++[x])++queue := by
  rw [h.visited,hq,List.append_assoc,List.singleton_append]

theorem Walked.popped_new (h : Walked parents resolved root w pops) (hq : w.queue=x::queue) : x∉pops := by
  have hnodup := h.once
  rw [h.visited,hq] at hnodup
  intro hx
  exact (List.nodup_append.mp hnodup).2.2 x hx x List.mem_cons_self rfl

theorem Walked.depth_popped (h : Walked parents resolved root w pops) (x : Hash) : w.depth+1=(pops++[x]).length := by
  rw [List.length_append,List.length_singleton,h.depth]

theorem Walked.only_popped (h : Walked parents resolved root w pops) (x : Hash) {y : Hash} (hy : y∈w.visited) :
    y=root ∨ ∃h'∈pops++[x],resolved h'=true ∧ y∈parents h' := by
  obtain hroot | ⟨h',hh',hr⟩ := h.only y hy
  · exact .inl hroot
  · exact .inr ⟨h',List.mem_append_left _ hh',hr⟩

/-- The parents of a popped hash come behind the queue. -/
theorem Walked.resolve (h : Walked parents resolved root w pops) (hdepth : w.depth < walkMaxDepth)
    (hq : w.queue=x::queue) (hres : resolved x=true) :
    Walked parents resolved root (({ w with queue,depth := w.depth+1 } : WalkQueue).pushAll (parents x))
      (pops++[x]) := by
  have hvisited := h.visited_popped hq
  obtain ⟨more,hrun,hnodup,hsub,hall⟩ := pushAll_spec { w with queue,depth := w.depth+1 } (parents x) h.once
  rw [hrun]
  dsimp only at hnodup hall ⊢
  refine ⟨?_,hnodup,h.depth_popped x,?_,List.mem_append_left _ h.start,?_,?_,?_,?_⟩
  · dsimp only
    rw [hvisited,List.append_assoc]
  · rw [← h.depth_popped x]
    exact hdepth
  · intro y hy
    rcases List.mem_append.mp hy with hy | hy
    · exact h.only_popped x hy
    · exact .inr ⟨x,by simp,hres,hsub hy⟩
  · intro y hy
    rcases List.mem_append.mp hy with hy | hy
    · exact h.reaches y hy
    · have hx : x∈w.visited := by
        rw [hvisited]
        simp
      exact (h.reaches x hx).tail ⟨hres,hsub hy⟩
  · intro hlt y hy hry p hp
    rcases List.mem_append.mp hy with hy | hy
    · refine List.mem_append_left _ (h.pushed ?_ y hy hry p hp)
      dsimp only at hlt
      rw [List.length_append] at hlt
      omega
    · rw [List.mem_singleton.mp hy] at hp
      exact hall hlt hp
  · dsimp only
    rw [h.unresolved,List.filter_append,List.filter_singleton,hres]
    simp

/-- A popped hash that does not resolve is surfaced. -/
theorem Walked.surface (h : Walked parents resolved root w pops) (hdepth : w.depth < walkMaxDepth)
    (hq : w.queue=x::queue) (hres : resolved x=false) :
    Walked parents resolved root
      { w with queue,depth := w.depth+1,unresolved := w.unresolved++[x] } (pops++[x]) := by
  refine ⟨h.visited_popped hq,h.once,h.depth_popped x,?_,h.start,fun y hy => h.only_popped x hy,h.reaches,?_,?_⟩
  · rw [← h.depth_popped x]
    exact hdepth
  · intro hlt y hy hry p hp
    rcases List.mem_append.mp hy with hy | hy
    · exact h.pushed hlt y hy hry p hp
    · rw [List.mem_singleton.mp hy,hres] at hry
      cases hry
  · dsimp only
    rw [h.unresolved,List.filter_append,List.filter_singleton,hres]
    simp

/-- A popped hash is visited already, and the caller handles it once. -/
theorem Walked.handle (h : Walked parents resolved root w pops) (hdepth : w.depth < walkMaxDepth)
    (hq : w.queue=x::queue) :
    Walked parents resolved root (({ w with queue,depth := w.depth+1 } : WalkQueue).handle parents resolved x)
      (pops++[x]) := by
  rw [WalkQueue.handle]
  by_cases hres : resolved x=true
  · rw [if_pos hres,WalkQueue.record,if_neg (by simp)]
    exact h.resolve hdepth hq hres
  · have hnot : w.unresolved.contains x=false := by
      rw [h.unresolved]
      simp [h.popped_new hq]
    rw [if_neg hres,WalkQueue.record,if_pos ⟨rfl,by simpa using hnot⟩]
    exact h.surface hdepth hq (by simpa using hres)

end Popped

/-- The walk ends, since every call of `next` but the last makes it deeper. -/
theorem Walked.drive (h : Walked parents resolved root w pops) (fuel : Nat) (hfuel : walkMaxDepth < fuel+w.depth) :
    ∃more w',drive parents resolved fuel w=some (more,w') ∧ Walked parents resolved root w' (pops++more) ∧
      (walkMaxDepth ≤ w'.depth ∨ w'.queue=[]) := by
  induction fuel generalizing w pops with
  | zero =>
    have hd := h.depth
    have hb := h.bound
    omega
  | succ fuel ih =>
    rw [Sync.drive,WalkQueue.next]
    by_cases hd : walkMaxDepth ≤ w.depth
    · rw [if_pos hd]
      exact ⟨[],w,rfl,by rwa [List.append_nil],.inl hd⟩
    · rw [if_neg hd]
      cases hq : w.queue with
      | nil => exact ⟨[],w,rfl,by rwa [List.append_nil],.inr hq⟩
      | cons x queue =>
        have hnext := h.handle (not_le.mp hd) hq
        have hdepth := hnext.depth
        rw [List.length_append,List.length_singleton,← h.depth] at hdepth
        obtain ⟨more,w',hrun,hw',hend⟩ := ih hnext (by omega)
        refine ⟨x::more,w',?_,?_,hend⟩
        · dsimp only
          rw [hrun]
          rfl
        · rwa [List.append_assoc,List.singleton_append] at hw'

/-- A run that is over stays as it is with more calls to go. -/
theorem drive_succ (fuel : Nat) (w : WalkQueue) {r : List Hash × WalkQueue} (h : drive parents resolved fuel w=some r) :
    drive parents resolved (fuel+1) w=some r := by
  induction fuel generalizing w r with
  | zero => cases h
  | succ fuel ih =>
    rw [drive] at h ⊢
    cases hn : w.next with
    | mk o w' =>
      rw [hn] at h
      cases o with
      | none => exact h
      | some x =>
        obtain ⟨r',hr',rfl⟩ := Option.map_eq_some_iff.mp h
        dsimp only
        rw [ih _ hr']
        rfl

theorem drive_mono {fuel more : Nat} (hle : fuel ≤ more) (w : WalkQueue) {r : List Hash × WalkQueue}
    (h : drive parents resolved fuel w=some r) : drive parents resolved more w=some r := by
  induction more,hle using Nat.le_induction with
  | base => exact h
  | succ more _ ih => exact drive_succ more w ih

/-- A walk that is over has popped everything when there is no more than it may pop. -/
theorem Walked.covers (h : Walked parents resolved root w pops) (hend : walkMaxDepth ≤ w.depth ∨ w.queue=[])
    (hfin : (reached parents resolved root).Finite) (hcard : (reached parents resolved root).ncard ≤ walkMaxDepth) :
    Covers parents resolved root pops w := by
  have hlen : w.visited.length ≤ walkMaxDepth := by
    have hsub : (w.visited.toFinset : Set Hash)⊆reached parents resolved root := by
      intro x hx
      exact h.reaches x (List.mem_toFinset.mp hx)
    have hle := Set.ncard_le_ncard hsub hfin
    rw [Set.ncard_coe_finset,List.toFinset_card_of_nodup h.once] at hle
    exact hle.trans hcard
  have hqueue : w.queue=[] := by
    obtain hdeep | hempty := hend
    · have hsplit := congrArg List.length h.visited
      rw [List.length_append,← h.depth] at hsplit
      exact List.eq_nil_of_length_eq_zero (by omega)
    · exact hempty
  have hvisited : w.visited=pops := by rw [h.visited,hqueue,List.append_nil]
  refine ⟨hvisited ▸ h.once,hvisited ▸ h.start,?_,fun x hx => h.only x (hvisited.symm ▸ hx),?_,?_⟩
  · intro x hx hr p hp
    rw [← hvisited]
    exact h.pushed (lt_of_le_of_lt hlen (by decide)) x hx hr p hp
  · rw [h.unresolved]
    exact (hvisited ▸ h.once).filter _
  · intro x
    rw [h.unresolved,List.mem_filter]
    simp

/-- What is covered has been popped, so it is no more than the walk may pop. -/
theorem Covers.within (h : Covers parents resolved root pops w) (hlen : pops.length ≤ walkMaxDepth) :
    (reached parents resolved root).Finite ∧ (reached parents resolved root).ncard ≤ walkMaxDepth := by
  have hsub : reached parents resolved root⊆(pops.toFinset : Set Hash) := by
    intro x hx
    rw [Finset.mem_coe,List.mem_toFinset]
    induction hx with
    | refl => exact h.start
    | tail _ hstep ih => exact h.follow _ ih hstep.1 _ hstep.2
  have hfin : (reached parents resolved root).Finite := pops.toFinset.finite_toSet.subset hsub
  refine ⟨hfin,?_⟩
  have hle := Set.ncard_le_ncard hsub pops.toFinset.finite_toSet
  rw [Set.ncard_coe_finset] at hle
  exact (hle.trans (List.toFinset_card_le pops)).trans hlen

end Driver

/-- The walk ends after at most 129 calls of `next`, whatever the graph. -/
theorem walk_covers_iff (parents : Hash → List Hash) (resolved : Hash → Bool) (root : Hash) :
    ∃pops w,(∀fuel,walkMaxDepth < fuel → drive parents resolved fuel (WalkQueue.new root)=some (pops,w)) ∧
      w.unresolved=pops.filter (fun h => !resolved h) ∧ pops.Nodup ∧
      (Covers parents resolved root pops w ↔
        (reached parents resolved root).Finite ∧ (reached parents resolved root).ncard ≤ walkMaxDepth) := by
  have hstart : Walked parents resolved root (WalkQueue.new root) [] := walked_new root
  obtain ⟨pops,w,hrun,hw,hend⟩ := hstart.drive (walkMaxDepth+1) (Nat.lt_succ_self _)
  rw [List.nil_append] at hw
  refine ⟨pops,w,fun fuel hfuel => drive_mono hfuel _ hrun,hw.unresolved,?_,fun h => h.within hw.bound,
    fun h => hw.covers hend h.1 h.2⟩
  have hnodup := hw.once
  rw [hw.visited] at hnodup
  exact (List.nodup_append.mp hnodup).1

section Star

def starHash (i : Nat) : Hash := fixed 32 [UInt8.ofNat i]

/-- A root with 129 parents that have none. -/
def starParents (h : Hash) : List Hash := if h=starHash 0 then (List.range 129).map (fun i => starHash (i+1)) else []

theorem starHash_inj {i j : Nat} (hi : i < 256) (hj : j < 256) (h : starHash i=starHash j) : i=j := by
  have hhead := congrArg (fun v : Hash => v.toList.head?) h
  have hbyte : UInt8.ofNat i=UInt8.ofNat j := Option.some.inj hhead
  rw [← UInt8.toNat_inj,UInt8.toNat_ofNat_of_lt' hi,UInt8.toNat_ofNat_of_lt' hj] at hbyte
  exact hbyte

theorem star_reached : ∀i,i < 130 → starHash i∈reached starParents (fun _ => true) (starHash 0) := by
  intro i hi
  cases i with
  | zero => exact Relation.ReflTransGen.refl
  | succ i =>
    refine Relation.ReflTransGen.single ⟨rfl,?_⟩
    rw [starParents,if_pos rfl,List.mem_map]
    exact ⟨i,List.mem_range.mpr (Nat.lt_of_succ_lt_succ hi),rfl⟩

theorem star_too_wide : ¬((reached starParents (fun _ => true) (starHash 0)).Finite ∧
    (reached starParents (fun _ => true) (starHash 0)).ncard ≤ walkMaxDepth) := by
  intro hw
  obtain ⟨hfin,hcard⟩ := hw
  have hsub : (((Finset.range 130).image starHash : Finset Hash) : Set Hash)⊆
      reached starParents (fun _ => true) (starHash 0) := by
    intro x hx
    obtain ⟨i,hi,rfl⟩ := Finset.mem_image.mp hx
    exact star_reached i (Finset.mem_range.mp hi)
  have hle := Set.ncard_le_ncard hsub hfin
  rw [Set.ncard_coe_finset,Finset.card_image_of_injOn,Finset.card_range] at hle
  · exact absurd (hle.trans hcard) (by decide)
  · intro i hi j hj he
    rw [Finset.mem_coe,Finset.mem_range] at hi hj
    exact starHash_inj (by omega) (by omega) he

/-- Every hash of the star is the root or one step from it, and the walk does not cover it. -/
theorem star_not_covered : (∀h∈reached starParents (fun _ => true) (starHash 0),
      h=starHash 0 ∨ h∈(List.range 129).map (fun i => starHash (i+1))) ∧
    ∀fuel pops w,drive starParents (fun _ => true) fuel (WalkQueue.new (starHash 0))=some (pops,w) →
      ¬Covers starParents (fun _ => true) (starHash 0) pops w := by
  constructor
  · intro h hh
    induction hh with
    | refl => exact .inl rfl
    | tail _ hstep _ =>
      obtain ⟨_,hmem⟩ := hstep
      rw [starParents] at hmem
      split_ifs at hmem with hroot
      · exact .inr hmem
      · exact absurd hmem List.not_mem_nil
  · intro fuel pops w hrun hcovers
    have hstart : Walked starParents (fun _ => true) (starHash 0) (WalkQueue.new (starHash 0)) [] :=
      walked_new (starHash 0)
    obtain ⟨pops',w',hrun',hw,_⟩ := hstart.drive (fuel+walkMaxDepth+1) (by
      rw [WalkQueue.new]
      omega)
    have hlonger := drive_mono (by omega : fuel ≤ fuel+walkMaxDepth+1) _ hrun
    obtain ⟨rfl,rfl⟩ := Prod.mk.inj (Option.some.inj (hrun'.symm.trans hlonger))
    exact star_too_wide (hcovers.within hw.bound)

end Star

end Bolina.Sync
