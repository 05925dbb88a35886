import Bolina.Transport.RateWindow

namespace Bolina.Sync

open Panic

/-- The requests that have been admitted. -/
def admitted (reqs : List Request) (verdicts : List Bool) : List Request :=
  ((reqs.zip verdicts).filter Prod.snd).map Prod.fst

def ofPeer (peer : Peer) (reqs : List Request) : List Request := reqs.filter (fun r => r.peer == peer)

def verdictsOf (peer : Peer) (reqs : List Request) (verdicts : List Bool) : List Bool :=
  ((reqs.zip verdicts).filter (fun q => q.1.peer == peer)).map Prod.snd

/-- The times of a peer's admitted requests. -/
def stampsOf (peer : Peer) (reqs : List Request) (verdicts : List Bool) : List UInt64 :=
  (ofPeer peer (admitted reqs verdicts)).map Request.nowMs

def RateTable.Tracks (t : RateTable) (peer : Peer) : Prop := ∃i : Fin maxTrackedPeers,i.val < t.used ∧ t.peers i=peer

instance (t : RateTable) (peer : Peer) : Decidable (t.Tracks peer) := inferInstanceAs (Decidable (∃_,_))

section Lists

variable {reqs : List Request} {verdicts : List Bool} (h : verdicts.length=reqs.length) (r : Request) (v : Bool)
variable (peer : Peer)

include h

theorem zip_concat : (reqs++[r]).zip (verdicts++[v])=reqs.zip verdicts++[(r,v)] := List.zip_append h.symm

theorem admitted_sublist : (admitted reqs verdicts).Sublist reqs := by
  have hsub := (List.filter_sublist (p := Prod.snd) (l := reqs.zip verdicts)).map Prod.fst
  rwa [List.map_fst_zip h.ge] at hsub

theorem stampsOf_concat : stampsOf peer (reqs++[r]) (verdicts++[v])=
    stampsOf peer reqs verdicts++if v=true ∧ r.peer=peer then [r.nowMs] else [] := by
  rw [stampsOf,stampsOf,admitted,admitted,zip_concat h,List.filter_append,List.map_append,ofPeer,ofPeer,List.filter_append,
    List.map_append]
  congr 1
  cases v with
  | false => simp
  | true => by_cases hp : r.peer=peer <;> simp [hp]

theorem verdictsOf_concat : verdictsOf peer (reqs++[r]) (verdicts++[v])=
    verdictsOf peer reqs verdicts++if r.peer=peer then [v] else [] := by
  rw [verdictsOf,verdictsOf,zip_concat h,List.filter_append,List.map_append]
  congr 1
  by_cases hp : r.peer=peer <;> simp [hp]

omit h in
theorem ofPeer_concat : ofPeer peer (reqs++[r])=ofPeer peer reqs++if r.peer=peer then [r] else [] := by
  rw [ofPeer,ofPeer,List.filter_append]
  congr 1
  by_cases hp : r.peer=peer <;> simp [hp]

/-- The stamps are times of requests, in their order. -/
theorem stampsOf_sublist : (stampsOf peer reqs verdicts).Sublist (reqs.map Request.nowMs) :=
  (List.filter_sublist.trans (admitted_sublist h)).map Request.nowMs

omit h in
theorem ofPeer_eq_nil (hnone : ∀q∈reqs,q.peer≠peer) : ofPeer peer reqs=[] := by
  rw [ofPeer,List.filter_eq_nil_iff]
  intro q hq
  simpa using hnone q hq

theorem stampsOf_eq_nil (hnone : ∀q∈reqs,q.peer≠peer) : stampsOf peer reqs verdicts=[] := by
  rw [stampsOf,ofPeer_eq_nil peer (fun q hq => hnone q ((admitted_sublist h).subset hq)),List.map_nil]

omit h in
theorem verdictsOf_eq_nil (hnone : ∀q∈reqs,q.peer≠peer) : verdictsOf peer reqs verdicts=[] := by
  rw [verdictsOf,List.map_eq_nil_iff,List.filter_eq_nil_iff]
  intro q hq
  simpa using hnone q.1 (List.of_mem_zip hq).1

end Lists

theorem window_runs_concat (w : RateWindow) (reqs : List Request) (r : Request) {verdicts : List Bool} {w₁ w₂ : RateWindow}
    {v : Bool} (h : w.runs reqs=some (verdicts,w₁)) (hr : w₁.admit r.windowMs r.nowMs=some (v,w₂)) :
    w.runs (reqs++[r])=some (verdicts++[v],w₂) := by
  induction reqs generalizing w verdicts with
  | nil =>
    obtain ⟨rfl,rfl⟩ := Prod.mk.inj (Option.some.inj h)
    rw [List.nil_append,RateWindow.runs,hr]
    rfl
  | cons q reqs ih =>
    rw [RateWindow.runs] at h
    simp only [Option.bind_eq_bind,Option.bind_eq_some_iff] at h
    obtain ⟨⟨v₁,wq⟩,hq,⟨vs,wr⟩,hrest,heq⟩ := h
    obtain ⟨rfl,rfl⟩ := Prod.mk.inj (Option.some.inj heq)
    rw [List.cons_append,RateWindow.runs,hq]
    simp only [Option.bind_eq_bind,Option.bind_some]
    rw [ih wq hrest]
    rfl

theorem table_runs_concat (t : RateTable) (reqs : List Request) (r : Request) {verdicts : List Bool} {t₁ t₂ : RateTable}
    {v : Bool} (h : t.runs reqs=some (verdicts,t₁)) (hr : t₁.admit r.peer r.windowMs r.nowMs=some (v,t₂)) :
    t.runs (reqs++[r])=some (verdicts++[v],t₂) := by
  induction reqs generalizing t verdicts with
  | nil =>
    obtain ⟨rfl,rfl⟩ := Prod.mk.inj (Option.some.inj h)
    rw [List.nil_append,RateTable.runs,hr]
    rfl
  | cons q reqs ih =>
    rw [RateTable.runs] at h
    simp only [Option.bind_eq_bind,Option.bind_eq_some_iff] at h
    obtain ⟨⟨v₁,tq⟩,hq,⟨vs,tr⟩,hrest,heq⟩ := h
    obtain ⟨rfl,rfl⟩ := Prod.mk.inj (Option.some.inj heq)
    rw [List.cons_append,RateTable.runs,hq]
    simp only [Option.bind_eq_bind,Option.bind_some]
    rw [ih tq hrest]
    rfl

/-- The slots in use are the windows of their peers, each on its own requests;
the others are as they were made. -/
structure Keeps (budget : Nat) (t : RateTable) (reqs : List Request) (verdicts : List Bool) : Prop where
  lengths : verdicts.length=reqs.length
  used : t.used ≤ maxTrackedPeers
  distinct : ∀i j : Fin maxTrackedPeers,i.val < t.used → j.val < t.used → t.peers i=t.peers j → i=j
  recalls : ∀i : Fin maxTrackedPeers,i.val < t.used →
    Recalls budget (t.windows i) (stampsOf (t.peers i) reqs verdicts)
  alone : ∀i : Fin maxTrackedPeers,i.val < t.used →
    (RateWindow.new budget).runs (ofPeer (t.peers i) reqs)=some (verdictsOf (t.peers i) reqs verdicts,t.windows i)
  fresh : ∀i : Fin maxTrackedPeers,t.used ≤ i.val → t.windows i=RateWindow.new budget
  room : t.used < maxTrackedPeers → ∀q∈reqs,t.Tracks q.peer

theorem keeps_new (budget : Nat) : Keeps budget (RateTable.new budget) [] [] where
  lengths := rfl
  used := Nat.zero_le _
  distinct _ _ h := absurd h (Nat.not_lt_zero _)
  recalls _ h := absurd h (Nat.not_lt_zero _)
  alone _ h := absurd h (Nat.not_lt_zero _)
  fresh _ _ := rfl
  room _ _ h := absurd h List.not_mem_nil

section Table

variable {budget : Nat} {t : RateTable} {reqs : List Request} {verdicts : List Bool}

theorem find_peer (t : RateTable) (peer : Peer) :
    (∃i,t.position peer=some i ∧ i.val < t.used ∧ t.peers i=peer) ∨ (t.position peer=none ∧ ¬t.Tracks peer) := by
  cases hf : t.position peer with
  | some i =>
    have hp := Fin.eq_true_of_find?_eq_some hf
    rw [Bool.and_eq_true,decide_eq_true_iff,beq_iff_eq] at hp
    exact .inl ⟨i,rfl,hp⟩
  | none =>
    refine .inr ⟨rfl,?_⟩
    intro h
    obtain ⟨i,hi,hpeer⟩ := h
    have hp := Fin.eq_false_of_find?_eq_none hf i
    rw [decide_eq_true hi,hpeer,beq_self_eq_true] at hp
    exact Bool.false_ne_true hp.symm

/-- A request moves the window of its peer, and no other. -/
theorem Keeps.move (h : Keeps budget t reqs verdicts) {i : Fin maxTrackedPeers} (hi : i.val < t.used) {r : Request}
    (hr : t.peers i=r.peer) {v : Bool} {w : RateWindow} (hrun : RateWindow.admit (t.windows i) r.windowMs r.nowMs=some (v,w))
    (hw : Recalls budget w (if v=true then stampsOf r.peer reqs verdicts++[r.nowMs] else stampsOf r.peer reqs verdicts)) :
    Keeps budget { t with windows := Function.update t.windows i w } (reqs++[r]) (verdicts++[v]) := by
  have hother : ∀j : Fin maxTrackedPeers,j.val < t.used → j≠i → r.peer≠t.peers j :=
    fun j hj hne he => hne (h.distinct j i hj hi (he.symm.trans hr.symm))
  refine ⟨?_,h.used,h.distinct,?_,?_,?_,?_⟩
  · rw [List.length_append,List.length_append,h.lengths]
    rfl
  · intro j hj
    dsimp only
    rw [stampsOf_concat h.lengths]
    by_cases hji : j=i
    · subst hji
      rw [Function.update_self,hr]
      cases v with
      | false => simpa using hw
      | true => simpa using hw
    · rw [Function.update_of_ne hji,if_neg (fun hp => hother j hj hji hp.2),List.append_nil]
      exact h.recalls j hj
  · intro j hj
    dsimp only
    rw [ofPeer_concat,verdictsOf_concat h.lengths]
    by_cases hji : j=i
    · subst hji
      rw [Function.update_self,if_pos hr.symm,if_pos hr.symm]
      exact window_runs_concat _ _ r (h.alone j hj) hrun
    · rw [Function.update_of_ne hji,if_neg (hother j hj hji),if_neg (hother j hj hji),List.append_nil,List.append_nil]
      exact h.alone j hj
  · intro j hj
    have hji : j≠i := fun he => absurd (he ▸ hj) (not_le.mpr hi)
    dsimp only
    rw [Function.update_of_ne hji]
    exact h.fresh j hj
  · intro hroom q hq
    rcases List.mem_append.mp hq with hq | hq
    · exact h.room hroom q hq
    · rw [List.mem_singleton.mp hq]
      exact ⟨i,hi,hr⟩

/-- A new peer takes the first slot that is not in use. -/
theorem Keeps.track (h : Keeps budget t reqs verdicts) (hmax : budget ≤ serveBudget) {peer : Peer} (hnew : ¬t.Tracks peer)
    (hroom : t.used < maxTrackedPeers) :
    Keeps budget ⟨Function.update t.peers ⟨t.used,hroom⟩ peer,t.windows,t.used+1⟩ reqs verdicts := by
  have hnone : ∀q∈reqs,q.peer≠peer := fun q hq he => hnew (he ▸ h.room hroom q hq)
  have hcases : ∀j : Fin maxTrackedPeers,j.val < t.used+1 → j=⟨t.used,hroom⟩ ∨ (j.val < t.used ∧ j≠⟨t.used,hroom⟩) := by
    intro j hj
    rw [Ne,Fin.ext_iff]
    dsimp only
    omega
  refine ⟨h.lengths,hroom,?_,?_,?_,?_,?_⟩
  · intro i j hi hj he
    dsimp only at hi hj he
    obtain rfl | ⟨hi,hin⟩ := hcases i hi
    · obtain rfl | ⟨hj,hjn⟩ := hcases j hj
      · rfl
      · rw [Function.update_self,Function.update_of_ne hjn] at he
        exact absurd ⟨j,hj,he.symm⟩ hnew
    · obtain rfl | ⟨hj,hjn⟩ := hcases j hj
      · rw [Function.update_self,Function.update_of_ne hin] at he
        exact absurd ⟨i,hi,he⟩ hnew
      · rw [Function.update_of_ne hin,Function.update_of_ne hjn] at he
        exact h.distinct i j hi hj he
  · intro i hi
    obtain rfl | ⟨hi,hin⟩ := hcases i hi
    · dsimp only
      rw [Function.update_self,stampsOf_eq_nil h.lengths peer hnone,h.fresh _ le_rfl]
      exact recalls_new hmax
    · dsimp only
      rw [Function.update_of_ne hin]
      exact h.recalls i hi
  · intro i hi
    obtain rfl | ⟨hi,hin⟩ := hcases i hi
    · dsimp only
      rw [Function.update_self,ofPeer_eq_nil peer hnone,verdictsOf_eq_nil peer hnone,h.fresh _ le_rfl]
      rfl
    · dsimp only
      rw [Function.update_of_ne hin]
      exact h.alone i hi
  · intro i hi
    exact h.fresh i (Nat.le_of_succ_le hi)
  · intro hlt q hq
    obtain ⟨i,hi,hp⟩ := h.room hroom q hq
    have hin : i≠⟨t.used,hroom⟩ := by
      rw [Ne,Fin.ext_iff]
      dsimp only
      omega
    refine ⟨i,Nat.lt_succ_of_lt hi,?_⟩
    dsimp only
    rw [Function.update_of_ne hin]
    exact hp

/-- A refused request of a peer without a slot leaves everything as it is. -/
theorem Keeps.refuse (h : Keeps budget t reqs verdicts) {r : Request} (hnew : ¬t.Tracks r.peer)
    (hfull : maxTrackedPeers ≤ t.used) : Keeps budget t (reqs++[r]) (verdicts++[false]) := by
  have hother : ∀i : Fin maxTrackedPeers,i.val < t.used → r.peer≠t.peers i := fun i hi he => hnew ⟨i,hi,he.symm⟩
  refine ⟨?_,h.used,h.distinct,?_,?_,h.fresh,fun hlt => absurd hlt (not_lt.mpr hfull)⟩
  · rw [List.length_append,List.length_append,h.lengths]
    rfl
  · intro i hi
    rw [stampsOf_concat h.lengths,if_neg (fun hp => hother i hi hp.2),List.append_nil]
    exact h.recalls i hi
  · intro i hi
    rw [ofPeer_concat,verdictsOf_concat h.lengths,if_neg (hother i hi),if_neg (hother i hi),List.append_nil,List.append_nil]
    exact h.alone i hi

/-- The stamps of a peer are none of them zero, and in order. -/
theorem Keeps.stamps (h : Keeps budget t reqs verdicts) (hpos : ∀q∈reqs,0 < q.nowMs)
    (hmono : reqs.Pairwise (fun q q' => q.nowMs ≤ q'.nowMs)) (peer : Peer) {nowMs : UInt64} (hle : ∀q∈reqs,q.nowMs ≤ nowMs) :
    (stampsOf peer reqs verdicts).Pairwise (· ≤ ·) ∧ ∀s∈stampsOf peer reqs verdicts,s≠0 ∧ s ≤ nowMs := by
  have hsub := stampsOf_sublist h.lengths peer
  refine ⟨(List.pairwise_map.mpr hmono).sublist hsub,?_⟩
  intro s hs
  obtain ⟨q,hq,rfl⟩ := List.mem_map.mp (hsub.subset hs)
  refine ⟨?_,hle q hq⟩
  intro hz
  exact absurd (hz ▸ hpos q hq) (by decide)

/-- What a request of a tracked peer, of a new one, and of one that finds no slot is told. -/
structure Told (budget : Nat) (t : RateTable) (reqs : List Request) (verdicts : List Bool) (r : Request) (v : Bool)
    (t' : RateTable) : Prop where
  tracked : t.Tracks r.peer →
    (v=true ↔ ((stampsOf r.peer reqs verdicts).filter (fun s => decide (r.nowMs-s < r.windowMs))).length < budget)
  new : ¬t.Tracks r.peer → t.used < maxTrackedPeers → v=true ∧ t'.Tracks r.peer
  full : ¬t.Tracks r.peer → t.used=maxTrackedPeers → v=false ∧ t'=t

theorem admit_found {peer : Peer} {i : Fin maxTrackedPeers}
    (hfind : t.position peer=some i)
    {windowMs nowMs : UInt64} {v : Bool} {w : RateWindow} (hrun : RateWindow.admit (t.windows i) windowMs nowMs=some (v,w)) :
    t.admit peer windowMs nowMs=some (v,{ t with windows := Function.update t.windows i w }) := by
  unfold RateTable.admit
  simp only [hfind,hrun,Option.bind_eq_bind,Option.bind_some]
  rfl

theorem admit_full {peer : Peer}
    (hfind : t.position peer=none)
    (hfull : maxTrackedPeers ≤ t.used) (windowMs nowMs : UInt64) : t.admit peer windowMs nowMs=some (false,t) := by
  unfold RateTable.admit
  rw [hfind]
  exact if_pos hfull

theorem admit_new {peer : Peer}
    (hfind : t.position peer=none)
    (hroom : t.used < maxTrackedPeers) {windowMs nowMs : UInt64} {v : Bool} {w : RateWindow}
    (hrun : RateWindow.admit (t.windows ⟨t.used,hroom⟩) windowMs nowMs=some (v,w)) :
    t.admit peer windowMs nowMs=some (v,⟨Function.update t.peers ⟨t.used,hroom⟩ peer,
      Function.update t.windows ⟨t.used,hroom⟩ w,t.used+1⟩) := by
  have hplace : place t.windows (t.used+1-1)=some (t.windows ⟨t.used,hroom⟩) := dif_pos hroom
  have hset : setPlace t.windows (t.used+1-1) w=some (Function.update t.windows ⟨t.used,hroom⟩ w) := dif_pos hroom
  have hpeers : setPlace t.peers t.used peer=some (Function.update t.peers ⟨t.used,hroom⟩ peer) := dif_pos hroom
  unfold RateTable.admit
  simp only [hfind,if_neg (not_le.mpr hroom),hpeers,hplace,hset,hrun,Option.bind_eq_bind,Option.bind_some]
  rfl

theorem Keeps.step (h : Keeps budget t reqs verdicts) (hbudget : 1 ≤ budget) (hmax : budget ≤ serveBudget)
    (hpos : ∀q∈reqs,0 < q.nowMs) (hmono : reqs.Pairwise (fun q q' => q.nowMs ≤ q'.nowMs)) (r : Request)
    (hle : ∀q∈reqs,q.nowMs ≤ r.nowMs) :
    ∃v t', t.admit r.peer r.windowMs r.nowMs=some (v,t') ∧ Keeps budget t' (reqs++[r]) (verdicts++[v]) ∧
      Told budget t reqs verdicts r v t' := by
  obtain ⟨i,hfind,hi,hpeer⟩ | ⟨hfind,hnew⟩ := find_peer t r.peer
  · obtain ⟨hsorted,hstamps⟩ := h.stamps hpos hmono r.peer hle
    have hrecalls : Recalls budget (t.windows i) (stampsOf r.peer reqs verdicts) := by
      rw [← hpeer]
      exact h.recalls i hi
    obtain ⟨w,hrun,hw⟩ := hrecalls.step hbudget hmax hsorted r.windowMs hstamps
    have htracks : t.Tracks r.peer := ⟨i,hi,hpeer⟩
    refine ⟨_,_,admit_found hfind hrun,h.move hi hpeer hrun ?_,?_⟩
    · simpa only [decide_eq_true_iff] using hw
    · exact ⟨fun _ => decide_eq_true_iff,fun hno => absurd htracks hno,fun hno => absurd htracks hno⟩
  · by_cases hfull : maxTrackedPeers ≤ t.used
    · exact ⟨_,_,admit_full hfind hfull _ _,h.refuse hnew hfull,fun ht => absurd ht hnew,
        fun _ hlt => absurd hfull (not_le.mpr hlt),fun _ _ => ⟨rfl,rfl⟩⟩
    · have hroom : t.used < maxTrackedPeers := not_le.mp hfull
      have hnone : ∀q∈reqs,q.peer≠r.peer := fun q hq he => hnew (he ▸ h.room hroom q hq)
      have hrecalls : Recalls budget (t.windows ⟨t.used,hroom⟩) [] := by
        rw [h.fresh _ le_rfl]
        exact recalls_new hmax
      obtain ⟨w,hrun,hw⟩ := hrecalls.step hbudget hmax List.Pairwise.nil r.windowMs
        (fun s hs => absurd hs List.not_mem_nil)
      have hlt : ([] : List UInt64).length < budget := hbudget
      rw [List.filter_nil,decide_eq_true hlt] at hrun
      rw [List.filter_nil,if_pos hlt] at hw
      have hkeeps := (h.track hmax hnew hroom).move (i := ⟨t.used,hroom⟩) (Nat.lt_succ_self _)
        (Function.update_self _ _ _) hrun (by rwa [if_pos rfl,stampsOf_eq_nil h.lengths r.peer hnone])
      refine ⟨_,_,admit_new hfind hroom hrun,hkeeps,fun ht => absurd ht hnew,fun _ _ => ⟨rfl,?_⟩,
        fun _ he => absurd hroom (he ▸ lt_irrefl _)⟩
      exact ⟨⟨t.used,hroom⟩,Nat.lt_succ_self _,Function.update_self _ _ _⟩

theorem Keeps.runs (budget : Nat) (hbudget : 1 ≤ budget) (hmax : budget ≤ serveBudget) (reqs : List Request)
    (hpos : ∀q∈reqs,0 < q.nowMs) (hmono : reqs.Pairwise (fun q q' => q.nowMs ≤ q'.nowMs)) :
    ∃verdicts t,(RateTable.new budget).runs reqs=some (verdicts,t) ∧ Keeps budget t reqs verdicts := by
  induction reqs using List.reverseRecOn with
  | nil => exact ⟨[],_,rfl,keeps_new budget⟩
  | append_singleton reqs r ih =>
    obtain ⟨hmono,_,hle⟩ := List.pairwise_append.mp hmono
    have hpos' : ∀q∈reqs,0 < q.nowMs := fun q hq => hpos q (List.mem_append_left _ hq)
    obtain ⟨verdicts,t,hrun,h⟩ := ih hpos' hmono
    obtain ⟨v,t',hstep,h',_⟩ := h.step hbudget hmax hpos' hmono r (fun q hq => hle q hq r List.mem_cons_self)
    exact ⟨_,t',table_runs_concat _ _ r hrun hstep,h'⟩

end Table

theorem rate_table_exact (budget : Nat) (hbudget : 1 ≤ budget) (hmax : budget ≤ serveBudget) (reqs : List Request)
    (hpos : ∀q∈reqs,0 < q.nowMs) (hmono : reqs.Pairwise (fun q q' => q.nowMs ≤ q'.nowMs)) :
    ∃verdicts t,(RateTable.new budget).runs reqs=some (verdicts,t) ∧ t.used ≤ maxTrackedPeers ∧
      (∀r : Request,0 < r.nowMs → (∀q∈reqs,q.nowMs ≤ r.nowMs) →
        ∃v t', t.admit r.peer r.windowMs r.nowMs=some (v,t') ∧ Told budget t reqs verdicts r v t') ∧
      ∀peer,t.Tracks peer → ∃w,(RateWindow.new budget).runs (ofPeer peer reqs)=some (verdictsOf peer reqs verdicts,w) := by
  obtain ⟨verdicts,t,hrun,h⟩ := Keeps.runs budget hbudget hmax reqs hpos hmono
  refine ⟨verdicts,t,hrun,h.used,?_,?_⟩
  · intro r _ hle
    obtain ⟨v,t',hstep,_,htold⟩ := h.step hbudget hmax hpos hmono r hle
    exact ⟨v,t',hstep,htold⟩
  · intro peer htracks
    obtain ⟨i,hi,rfl⟩ := htracks
    exact ⟨_,h.alone i hi⟩

/-- Two peers; the third request of the first one comes too soon. -/
def sampleRequests : List Request :=
  [⟨fixed 32 [1],10,1⟩,⟨fixed 32 [2],10,2⟩,⟨fixed 32 [1],10,3⟩,⟨fixed 32 [1],10,10⟩]

theorem rate_table_exact_sample : 1 ≤ 2 ∧ 2 ≤ serveBudget ∧ (∀q∈sampleRequests,0 < q.nowMs) ∧
    sampleRequests.Pairwise (fun q q' => q.nowMs ≤ q'.nowMs) ∧
    ∃t,(RateTable.new 2).runs sampleRequests=some ([true,true,true,false],t) ∧ t.used ≤ maxTrackedPeers := by
  obtain ⟨verdicts,t,hrun,hused,_⟩ := rate_table_exact 2 (by decide) (by decide) sampleRequests (by decide) (by decide)
  have hverdicts : ((RateTable.new 2).runs sampleRequests).map Prod.fst=some [true,true,true,false] := by decide +kernel
  rw [hrun] at hverdicts
  obtain rfl := Option.some.inj hverdicts
  exact ⟨by decide,by decide,by decide,by decide,t,hrun,hused⟩

end Bolina.Sync
