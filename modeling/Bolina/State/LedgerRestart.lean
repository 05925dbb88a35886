import Bolina.State.LedgerAppend

namespace Bolina.State

open RecordLog GuardedRun

/-- What a ledger is for, told by its calls alone: the ids whose commit has
returned `Ok`, in order of the first one, and the ids marked published. -/
structure History where
  committed : List GrantId
  published : Finset GrantId
  deriving DecidableEq

def History.empty : History := ⟨[],∅⟩

def History.commit (h : History) (id : GrantId) : History :=
  if id∈h.committed then h else { h with committed := h.committed++[id] }

def History.publish (h : History) (id : GrantId) : History :=
  { h with published := insert id h.published }

/-- One call that returned `Ok`. -/
def History.note (h : History) : Call → History
  | .commitConsumed id _ _ => h.commit id
  | .markPublished id => h.publish id
  | _ => h

/-- The ids committed and not published, in order of commit. -/
def History.orphans (h : History) : List GrantId := h.committed.filter (fun id => id∉h.published)

/-- The caches agree with the history. -/
structure Tells (h : History) (c : Caches) : Prop where
  published : c.published=h.published
  consumed : ∀id,id∈c.consumed ↔ id∈h.committed ∧ id∉h.published
  ordered : ∀id∈c.consumedOrder,id∈h.committed
  orphans : c.orphans=h.orphans

theorem tells_empty : Tells History.empty Caches.empty where
  published := rfl
  consumed id := by simp [History.empty,Caches.empty]
  ordered id hid := by simp [Caches.empty] at hid
  orphans := rfl

/-- A call whose effect the caches already hold. -/
theorem Tells.note_held {h : History} {c : Caches} (ht : Tells h c) (call : Call)
    (hh : ∀r,call.record=some r → c.Holds r) : Tells (h.note call) c := by
  cases call with
  | commitConsumed id expiryMs nowMs =>
    by_cases hm : id∈h.committed
    · simpa [History.note,History.commit,hm] using ht
    · have hp : id∈h.published := by
        obtain hc|hp := hh _ rfl
        · exact absurd ((ht.consumed id).mp hc).1 hm
        · rwa [← ht.published]
      have hnote : h.note (.commitConsumed id expiryMs nowMs)=
          { h with committed := h.committed++[id] } := if_neg hm
      rw [hnote]
      refine ⟨ht.published,?_,?_,?_⟩
      · intro x
        rw [ht.consumed x]
        have hx : x=id → x∈h.published := fun e => e ▸ hp
        simp only [List.mem_append,List.mem_singleton]
        tauto
      · intro x hx
        exact List.mem_append_left _ (ht.ordered x hx)
      · rw [ht.orphans]
        simp [History.orphans,List.filter_append,hp]
  | markPublished id =>
    have hp : id∈h.published := by
      rw [← ht.published]
      exact hh _ rfl
    simpa [History.note,History.publish,Finset.insert_eq_of_mem hp] using ht
  | commitRevocation pk certExpiryMs => exact ht
  | recordFirstReceipt id timeMs => exact ht
  | pruneExpired nowMs => exact ht

theorem Tells.note_commit {h : History} {c : Caches} (ht : Tells h c) (id : GrantId)
    (expiry : UInt64) (hh : ¬c.Holds (.commit id expiry)) :
    Tells (h.commit id) (c.apply (.commit id expiry)) := by
  have hnc : id∉c.consumed := fun hm => hh (Or.inl hm)
  have hnp : id∉h.published := by
    rw [← ht.published]
    exact fun hm => hh (Or.inr hm)
  have hnh : id∉h.committed := fun hm => hnc ((ht.consumed id).mpr ⟨hm,hnp⟩)
  have hcommit : h.commit id={ h with committed := h.committed++[id] } := if_neg hnh
  rw [hcommit]
  refine ⟨ht.published,?_,?_,?_⟩
  · intro x
    have hx : x=id → x∉h.published := fun e => e ▸ hnp
    have hc := ht.consumed x
    simp only [Caches.apply,AList.mem_insert,List.mem_append,List.mem_singleton]
    tauto
  · intro x hx
    simp only [Caches.apply,List.mem_append,List.mem_singleton] at hx ⊢
    exact hx.imp_left (ht.ordered x)
  · -- the new id was not in the order before, so the older orphans stay as they are
    have hold : c.consumedOrder.filter (fun x => x∈c.consumed.insert id expiry)=c.orphans := by
      apply List.filter_congr
      intro x hx
      have hne : x≠id := fun e => hnh (e ▸ ht.ordered x hx)
      simp [AList.mem_insert,hne]
    have hlast : (Caches.apply c (.commit id expiry)).orphans=
        c.consumedOrder.filter (fun x => x∈c.consumed.insert id expiry)++[id] := by
      simp [Caches.apply,Caches.orphans,List.filter_append]
    rw [hlast,hold,ht.orphans]
    simp [History.orphans,List.filter_append,hnp]

theorem Tells.note_publish {h : History} {c : Caches} (ht : Tells h c) (id : GrantId) :
    Tells (h.publish id) (c.apply (.published id)) := by
  refine ⟨?_,?_,ht.ordered,?_⟩
  · simp [Caches.apply,History.publish,ht.published]
  · intro x
    have hc := ht.consumed x
    simp only [Caches.apply,History.publish,AList.mem_erase,Finset.mem_insert]
    tauto
  · have hleft : (Caches.apply c (.published id)).orphans=c.orphans.filter (fun x => x≠id) := by
      simp only [Caches.apply,Caches.orphans,List.filter_filter]
      apply List.filter_congr
      intro x _
      simp [AList.mem_erase,Bool.decide_and]
    have hright : (h.publish id).orphans=h.orphans.filter (fun x => x≠id) := by
      simp only [History.publish,History.orphans,List.filter_filter]
      apply List.filter_congr
      intro x _
      simp [Finset.mem_insert,not_or,Bool.decide_and]
    rw [hleft,hright,ht.orphans]

/-- A call that appends its record. -/
theorem Tells.note_written {h : History} {c : Caches} (ht : Tells h c) (call : Call) (r : Record)
    (hr : call.record=some r) (hh : ¬c.Holds r) : Tells (h.note call) (c.apply r) := by
  cases call with
  | commitConsumed id expiryMs nowMs =>
    cases Option.some.inj hr
    exact ht.note_commit id expiryMs hh
  | markPublished id =>
    cases Option.some.inj hr
    exact ht.note_publish id
  | commitRevocation pk certExpiryMs =>
    cases Option.some.inj hr
    exact ⟨ht.published,ht.consumed,ht.ordered,ht.orphans⟩
  | recordFirstReceipt id timeMs =>
    cases Option.some.inj hr
    exact ⟨ht.published,ht.consumed,ht.ordered,ht.orphans⟩
  | pruneExpired nowMs => simp [Call.record] at hr

/-- A node and the history of its calls. -/
structure Trace where
  node : Node
  history : History
  deriving DecidableEq

def Trace.step (t : Trace) (x : Io × Op) : Trace :=
  { node := t.node.step x
    history :=
      match x.2,t.node.ledger with
      | .call c,some l =>
        if (c.run x.1 ⟨l,t.node.disk⟩).1=.ok () then t.history.note c else t.history
      | _,_ => t.history }

/-- An empty file, opened and recovered for the first time. -/
def Trace.start (io : Io) : Trace := ⟨Node.reopened io ⟨[],none,[]⟩,History.empty⟩

/-- Opening, reading and appending succeed, and the call rewrites nothing. -/
def Quiet (t : Trace) (x : Io × Op) : Prop :=
  x.1.Opens ∧ x.1.Appends ∧
    ∀c l nowMs,x.2=.call c → t.node.ledger=some l → ¬c.Rewrites l.toCaches nowMs

/-- The handle has recovered the log or written it since, and its caches are the
state of the records on disk. -/
structure Mirrored (t : Trace) (rs : List Record) : Prop where
  ledger : t.node.ledger=some ((Caches.replayAll rs).recovered t.node.disk)
  log : t.node.disk.log=ledgerFormat.encode rs
  tells : Tells t.history (Caches.replayAll rs)

theorem replayAll_concat (rs : List Record) (r : Record) (h : ¬(Caches.replayAll rs).Holds r) :
    Caches.replayAll (rs++[r])=(Caches.replayAll rs).apply r := by
  rw [← replay_of_fresh _ _ h,Caches.replayAll,List.foldl_append]
  rfl

theorem reopened_of_records (io : Io) (hio : io.Opens) (d : Disk) (rs : List Record)
    (hd : d.log=ledgerFormat.encode rs) :
    Node.reopened io d=⟨some ((Caches.replayAll rs).recovered d),{ d with temp := none }⟩ := by
  rw [Node.reopened,reopen_of_records io hio d rs [] (by simpa using hd) ledgerFormat.torn_nil]

theorem mirrored_start (io : Io) (hio : io.Opens) : Mirrored (Trace.start io) [] where
  ledger := by rw [Trace.start,reopened_of_records io hio _ [] rfl]
  log := by
    rw [Trace.start,reopened_of_records io hio _ [] rfl]
    rfl
  tells := tells_empty

theorem mirrored_step (t : Trace) (x : Io × Op) (hq : Quiet t x) (rs : List Record)
    (hm : Mirrored t rs) : ∃rs',Mirrored (t.step x) rs' := by
  obtain ⟨io,op⟩ := x
  obtain ⟨hopen,happend,hnr⟩ := hq
  cases op with
  | restart =>
    have hre := reopened_of_records io hopen t.node.disk rs hm.log
    refine ⟨rs,?_,?_,hm.tells⟩
    · show (Node.reopened io t.node.disk).ledger=
        some ((Caches.replayAll rs).recovered (Node.reopened io t.node.disk).disk)
      rw [hre]
      rfl
    · show (Node.reopened io t.node.disk).disk.log=_
      rw [hre]
      exact hm.log
  | call c =>
    have hstep : ∀res s',c.run io ⟨(Caches.replayAll rs).recovered t.node.disk,t.node.disk⟩=(res,s') →
        t.step (io,.call c)=
          ⟨s'.node,if res=.ok () then t.history.note c else t.history⟩ := by
      intro res s' hrun
      simp only [Trace.step,Node.step,hm.ledger,hrun]
    obtain ⟨res,hrun,hheld⟩|⟨nowMs,_,hrw,_⟩|⟨r,hw,hrun⟩|⟨nowMs,r,hw,_⟩ :=
      run_cases io ⟨(Caches.replayAll rs).recovered t.node.disk,t.node.disk⟩ c
    · refine ⟨rs,?_⟩
      rw [hstep _ _ hrun]
      refine ⟨rfl,hm.log,?_⟩
      by_cases hok : res=.ok ()
      · simp only [if_pos hok]
        exact hm.tells.note_held c (hheld hok)
      · simp only [if_neg hok]
        exact hm.tells
    · exact absurd hrw (hnr c _ nowMs rfl hm.ledger)
    · refine ⟨rs++[r],?_⟩
      rw [logRecord_of_appends io _ r t.node.disk.log.length happend rfl rfl] at hrun
      rw [hstep _ _ hrun,if_pos rfl]
      have hlog : writeAt 0 t.node.disk.log t.node.disk.log.length r.bytes=
          ledgerFormat.encode (rs++[r]) := by
        rw [writeAt_end,hm.log,ledgerFormat.encode_concat]
        rfl
      refine ⟨?_,hlog,?_⟩
      · simp only [Store.node,Store.logged,replayAll_concat rs r hw.2.1,Caches.recovered]
        simp
      · rw [replayAll_concat rs r hw.2.1]
        exact hm.tells.note_written c r hw.1 hw.2.1
    · exact absurd hw.1 (hnr c _ nowMs rfl hm.ledger)

theorem mirrored_run (t : Trace) (ops : List (Io × Op)) (hq : Meets Trace.step Quiet t ops)
    (hm : ∃rs,Mirrored t rs) : ∃rs,Mirrored (ops.foldl Trace.step t) rs := by
  have hstep : ∀t x,Quiet t x → (∃rs,Mirrored t rs) → ∃rs,Mirrored (Trace.step t x) rs := by
    intro t x hx h
    obtain ⟨rs,hm⟩ := h
    exact mirrored_step t x hx rs hm
  exact invariant hstep t ops hq hm

/-- Restart refinement: after any run without a rewrite, a restart brings the
caches back as they were, and its orphans are the ids committed and not published,
in order of commit. -/
theorem restart_exact (io₀ : Io) (h₀ : io₀.Opens) (ops : List (Io × Op))
    (hq : Meets Trace.step Quiet (Trace.start io₀) ops) (io : Io) (hio : io.Opens) :
    let t := ops.foldl Trace.step (Trace.start io₀)
    ∃l recovery l' d',t.node.ledger=some l ∧ reopen io t.node.disk=(.ok (recovery,l'),d') ∧
      l'.toCaches=l.toCaches ∧ recovery.orphans=t.history.orphans := by
  intro t
  obtain ⟨rs,hm⟩ := mirrored_run _ ops hq ⟨[],mirrored_start io₀ h₀⟩
  refine ⟨_,_,_,_,hm.ledger,
    reopen_of_records io hio t.node.disk rs [] (by simpa using hm.log) ledgerFormat.torn_nil,rfl,?_⟩
  exact hm.tells.orphans

theorem Io.good_opens : Io.good.Opens := ⟨rfl,rfl,rfl,rfl,rfl⟩

theorem Io.good_appends : Io.good.Appends := ⟨rfl,rfl⟩

theorem not_rewrites_of_room (c : Caches) (call : Call) (hp : ∀nowMs,call≠.pruneExpired nowMs)
    (hroom : c.consumed.keys.length < maxLive) (nowMs : UInt64) : ¬call.Rewrites c nowMs := by
  intro h
  obtain ⟨_,he|⟨id,expiryMs,_,_,hf⟩⟩ := h
  · exact hp nowMs he
  · exact absurd hf (Nat.not_le.mpr hroom)

theorem quiet_of_room (t : Trace) (op : Op) (hp : ∀nowMs,op≠.call (.pruneExpired nowMs))
    (hroom : ∀l∈t.node.ledger,l.consumed.keys.length < maxLive) : Quiet t (Io.good,op) := by
  refine ⟨Io.good_opens,Io.good_appends,?_⟩
  intro c l nowMs hc hl
  apply not_rewrites_of_room _ _ _ (hroom l hl)
  intro now he
  exact hp now (hc.trans (congrArg _ he))

def sampleOps : List (Io × Op) :=
  [(Io.good,.call (.commitConsumed (sampleId 1) 50 10)),
    (Io.good,.call (.commitConsumed (sampleId 2) 60 10)),
    (Io.good,.restart),(Io.good,.call (.markPublished (sampleId 1)))]

theorem restart_exact_sample :
    let t := sampleOps.foldl Trace.step (Trace.start Io.good)
    (∃l recovery l' d',t.node.ledger=some l ∧ reopen Io.good t.node.disk=(.ok (recovery,l'),d') ∧
      l'.toCaches=l.toCaches ∧ recovery.orphans=t.history.orphans) ∧
    t.history.orphans=[sampleId 2] := by
  refine ⟨restart_exact Io.good Io.good_opens sampleOps ?_ Io.good Io.good_opens,by decide⟩
  refine ⟨?_,?_,?_,?_,trivial⟩
  · exact quiet_of_room _ _ (by simp) (by decide)
  · exact quiet_of_room _ _ (by simp) (by decide)
  · exact quiet_of_room _ _ (by simp) (by decide)
  · exact quiet_of_room _ _ (by simp) (by decide)

end Bolina.State
