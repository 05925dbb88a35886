import Bolina.Framework.KeyedFold
import Bolina.Framework.Lockstep
import Bolina.State.LedgerTorn

namespace Bolina.State

open RecordLog KeyedFold

/-- What the mutator of a record does to the caches when neither a cap nor the disk stops it. -/
def Caches.live (c : Caches) (r : Record) : Caches := if c.Holds r then c else c.apply r

/-- The caches of a ledger whose mutators have been called with these records' arguments. -/
def Caches.liveAll (rs : List Record) : Caches := rs.foldl Caches.live Caches.empty

/-- Equal as hash maps, sets and lists. -/
structure Caches.Alike (c c' : Caches) : Prop where
  consumed : ∀id,c.consumed.lookup id=c'.consumed.lookup id
  consumedOrder : c.consumedOrder=c'.consumedOrder
  published : c.published=c'.published
  revoked : ∀pk,c.revoked.lookup pk=c'.revoked.lookup pk
  firstReceipts : ∀id,c.firstReceipts.lookup id=c'.firstReceipts.lookup id

def commits (rs : List Record) : List (Σ_ : GrantId,UInt64) :=
  rs.filterMap fun | .commit id expiry => some ⟨id,expiry⟩ | _ => none

def revokes (rs : List Record) : List (Σ_ : SigPubkey,UInt64) :=
  rs.filterMap fun | .revoke pk certExpiry => some ⟨pk,certExpiry⟩ | _ => none

def anchors (rs : List Record) : List (Σ_ : GrantId,UInt64) :=
  rs.filterMap fun | .firstReceipt id time => some ⟨id,time⟩ | _ => none

/-- Every COMMIT of the id has a PUBLISHED of it behind it. -/
def Closed (rs : List Record) (id : GrantId) : Prop :=
  ∀before expiry rest,rs=before++.commit id expiry::rest → .published id∈rest

/-- A published id is not committed behind its last PUBLISHED, and where a COMMIT or a
REVOKE is repeated the last one says what the first one said. -/
structure Plain (rs : List Record) : Prop where
  published : ∀id,.published id∈rs → Closed rs id
  commits : ∀id,.published id∉rs → (commits rs).reverse.dlookup id=(commits rs).dlookup id
  revokes : ∀pk,(revokes rs).reverse.dlookup pk=(revokes rs).dlookup pk

theorem liveAll_snoc (rs : List Record) (r : Record) :
    Caches.liveAll (rs++[r])=(Caches.liveAll rs).live r := by
  simp [Caches.liveAll,List.foldl_append]

section Mutators

/-- With room under the caps, a writable handle and a disk that writes, a call leaves the
caches that its record leaves. -/
theorem run_live (io : Io) (s : Store) (call : Call) (r : Record) (hio : io.Appends)
    (hro : s.ledger.readOnly=false) (hf : s.ledger.file.isSome) (hr : call.record=some r)
    (hroom : ¬s.ledger.Full r) :
    (call.run io s).1=.ok () ∧ (call.run io s).2.ledger.toCaches=s.ledger.live r ∧
      (call.run io s).2.ledger.readOnly=false ∧ (call.run io s).2.ledger.file.isSome := by
  by_cases hh : s.ledger.Holds r
  · have hrun : call.run io s=(.ok (),s) := by
      cases call with
      | pruneExpired nowMs => simp [Call.record] at hr
      | commitConsumed id expiryMs nowMs =>
        cases Option.some.inj hr
        exact if_pos hh
      | markPublished id =>
        cases Option.some.inj hr
        exact if_pos hh
      | commitRevocation pk certExpiryMs =>
        cases Option.some.inj hr
        exact if_pos hh
      | recordFirstReceipt id timeMs =>
        cases Option.some.inj hr
        exact if_pos hh
    have hlive : s.ledger.live r=s.ledger.toCaches := if_pos hh
    rw [hrun,hlive]
    exact ⟨rfl,rfl,hro,hf⟩
  · obtain ⟨pos,hpos⟩ := Option.isSome_iff_exists.mp hf
    have hrun := run_of_writes io s call r ⟨hr,hh,hroom⟩
    rw [logRecord_of_appends io s r pos hio hro hpos] at hrun
    have hlive : s.ledger.live r=s.ledger.apply r := if_neg hh
    rw [hrun,hlive]
    exact ⟨rfl,rfl,hro,rfl⟩

/-- A ledger just opened, before it has recovered anything. -/
def Disk.opened (d : Disk) : Store := ⟨{ Caches.empty with file := some 0,readOnly := false },d⟩

def Store.runs (io : Io) (s : Store) (calls : List Call) : Store :=
  calls.foldl (fun s call => (call.run io s).2) s

theorem runs_live_from (io : Io) (hio : io.Appends) (calls : List Call) (rs before : List Record) (s : Store)
    (hrs : calls.map Call.record=rs.map some) (hc : s.ledger.toCaches=Caches.liveAll before)
    (hro : s.ledger.readOnly=false) (hf : s.ledger.file.isSome)
    (hroom : ∀mid r rest,rs=mid++r::rest → ¬(Caches.liveAll (before++mid)).Full r) :
    (s.runs io calls).ledger.toCaches=Caches.liveAll (before++rs) := by
  induction calls generalizing rs before s with
  | nil =>
    have hnil : rs=[] := by simpa using hrs.symm
    simp [Store.runs,hnil,hc]
  | cons call calls ih =>
    cases rs with
    | nil => simp at hrs
    | cons r rs =>
      simp only [List.map_cons,List.cons.injEq] at hrs
      have hfit : ¬s.ledger.Full r := by simpa [hc] using hroom [] r rs rfl
      obtain ⟨_,hc',hro',hf'⟩ := run_live io s call r hio hro hf hrs.1 hfit
      have hsnoc : (call.run io s).2.ledger.toCaches=Caches.liveAll (before++[r]) := by
        rw [hc',hc,liveAll_snoc]
      have hrest : ∀mid r' rest,rs=mid++r'::rest → ¬(Caches.liveAll ((before++[r])++mid)).Full r' := by
        intro mid r' rest he
        have h := hroom (r::mid) r' rest (by simp [he])
        simpa using h
      have h := ih rs (before++[r]) _ hrs.2 hsnoc hro' hf' hrest
      simpa [Store.runs] using h

/-- So does a run of calls that never meets a cap, from a ledger just opened. -/
theorem runs_live (io : Io) (hio : io.Appends) (d : Disk) (calls : List Call) (rs : List Record)
    (hrs : calls.map Call.record=rs.map some)
    (hroom : ∀before r rest,rs=before++r::rest → ¬(Caches.liveAll before).Full r) :
    (d.opened.runs io calls).ledger.toCaches=Caches.liveAll rs :=
  runs_live_from io hio calls rs [] d.opened hrs rfl rfl rfl hroom

end Mutators

section Folds

theorem published_replayAll (rs : List Record) (id : GrantId) :
    id∈(Caches.replayAll rs).published ↔ .published id∈rs := by
  induction rs using List.reverseRecOn with
  | nil => simp [Caches.replayAll,Caches.empty]
  | append_singleton rs r ih =>
    rw [replayAll_snoc]
    cases r <;> simp [Caches.replay,ih,or_comm]

theorem mem_published_live (c : Caches) (r : Record) (id : GrantId) :
    id∈(c.live r).published ↔ id∈c.published ∨ r=.published id := by
  rw [Caches.live]
  by_cases hh : c.Holds r
  · rw [if_pos hh]
    refine ⟨Or.inl,?_⟩
    intro hw
    obtain h | rfl := hw
    · exact h
    · exact hh
  · rw [if_neg hh]
    cases r <;> simp [Caches.apply,or_comm,eq_comm]

theorem published_liveAll (rs : List Record) (id : GrantId) :
    id∈(Caches.liveAll rs).published ↔ .published id∈rs := by
  induction rs using List.reverseRecOn with
  | nil => simp [Caches.liveAll,Caches.empty]
  | append_singleton rs r ih =>
    rw [liveAll_snoc,mem_published_live,ih]
    simp [eq_comm]

theorem revokes_append (rs rs' : List Record) : revokes (rs++rs')=revokes rs++revokes rs' :=
  List.filterMap_append

theorem anchors_append (rs rs' : List Record) : anchors (rs++rs')=anchors rs++anchors rs' :=
  List.filterMap_append

theorem commits_append (rs rs' : List Record) : commits (rs++rs')=commits rs++commits rs' :=
  List.filterMap_append

theorem revoked_replay (c : Caches) (r : Record) : (c.replay r).revoked=insertAll c.revoked (revokes [r]) := by
  cases r <;> rfl

theorem revoked_live (c : Caches) (r : Record) : (c.live r).revoked=insertNew c.revoked (revokes [r]) := by
  rw [Caches.live]
  by_cases hh : c.Holds r
  · rw [if_pos hh]
    cases r with
    | revoke pk certExpiry => exact (insertNew_held c.revoked ⟨pk,certExpiry⟩ hh).symm
    | _ => rfl
  · rw [if_neg hh]
    cases r with
    | revoke pk certExpiry => exact (insertNew_fresh c.revoked ⟨pk,certExpiry⟩ hh).symm
    | _ => rfl

theorem firstReceipts_replay (c : Caches) (r : Record) :
    (c.replay r).firstReceipts=insertNew c.firstReceipts (anchors [r]) := by cases r <;> rfl

theorem firstReceipts_live (c : Caches) (r : Record) :
    (c.live r).firstReceipts=insertNew c.firstReceipts (anchors [r]) := by
  rw [Caches.live]
  by_cases hh : c.Holds r
  · rw [if_pos hh]
    cases r with
    | firstReceipt id time => exact (insertNew_held c.firstReceipts ⟨id,time⟩ hh).symm
    | _ => rfl
  · rw [if_neg hh]
    cases r with
    | firstReceipt id time => exact (insertNew_fresh c.firstReceipts ⟨id,time⟩ hh).symm
    | _ => rfl

theorem revoked_replayAll (rs : List Record) : (Caches.replayAll rs).revoked=insertAll ∅ (revokes rs) := by
  induction rs using List.reverseRecOn with
  | nil => rfl
  | append_singleton rs r ih => rw [replayAll_snoc,revoked_replay,ih,revokes_append,insertAll_append]

theorem revoked_liveAll (rs : List Record) : (Caches.liveAll rs).revoked=insertNew ∅ (revokes rs) := by
  induction rs using List.reverseRecOn with
  | nil => rfl
  | append_singleton rs r ih => rw [liveAll_snoc,revoked_live,ih,revokes_append,insertNew_append]

theorem firstReceipts_replayAll (rs : List Record) :
    (Caches.replayAll rs).firstReceipts=insertNew ∅ (anchors rs) := by
  induction rs using List.reverseRecOn with
  | nil => rfl
  | append_singleton rs r ih => rw [replayAll_snoc,firstReceipts_replay,ih,anchors_append,insertNew_append]

theorem firstReceipts_liveAll (rs : List Record) :
    (Caches.liveAll rs).firstReceipts=insertNew ∅ (anchors rs) := by
  induction rs using List.reverseRecOn with
  | nil => rfl
  | append_singleton rs r ih => rw [liveAll_snoc,firstReceipts_live,ih,anchors_append,insertNew_append]

/-- A replayed record touches the COMMIT of its own id only. -/
theorem lookup_replay (c : Caches) (r : Record) (id : GrantId) : (c.replay r).consumed.lookup id=
    match r with
    | .commit x expiry => if id=x then some expiry else c.consumed.lookup id
    | .published x => if id=x then none else c.consumed.lookup id
    | _ => c.consumed.lookup id := by
  cases r with
  | commit x expiry => exact lookup_insert_ite _ _ _ _
  | published x => exact lookup_erase_ite _ _ _
  | revoke pk certExpiry => rfl
  | firstReceipt x time => rfl

/-- A replayed COMMIT of an unpublished id is the last one. -/
theorem consumed_replayAll (rs : List Record) (id : GrantId) (hp : .published id∉rs) :
    (Caches.replayAll rs).consumed.lookup id=(commits rs).reverse.dlookup id := by
  induction rs using List.reverseRecOn with
  | nil => rfl
  | append_singleton rs r ih =>
    simp only [List.mem_append,List.mem_singleton,not_or] at hp
    rw [replayAll_snoc,commits_append,List.reverse_append,List.dlookup_append,← ih hp.1,lookup_replay]
    cases r with
    | commit x expiry =>
      have hlast : (commits [.commit x expiry]).reverse=[⟨x,expiry⟩] := rfl
      rw [hlast]
      by_cases hx : id=x
      · subst hx
        rw [List.dlookup_cons_eq]
        exact if_pos rfl
      · rw [dlookup_singleton_ne hx]
        exact if_neg hx
    | published x =>
      have hx : id≠x := fun he => hp.2 (congrArg _ he)
      exact if_neg hx
    | revoke pk certExpiry => rfl
    | firstReceipt x time => rfl

theorem closed_snoc (rs : List Record) (r : Record) (id : GrantId) :
    Closed (rs++[r]) id ↔ (r=.published id ∨ Closed rs id) ∧ ∀expiry,r≠.commit id expiry := by
  constructor
  · intro h
    constructor
    · by_cases hr : r=.published id
      · exact Or.inl hr
      · right
        intro before expiry rest he
        have hm := h before expiry (rest++[r]) (by simp [he])
        simpa [eq_comm,hr] using hm
    · intro expiry heq
      obtain rfl := heq
      have hm := h rs expiry [] rfl
      simp at hm
  · intro h before expiry rest he
    obtain ⟨rest',rfl,hrs⟩ | ⟨rfl,rfl,hr⟩ := (Lockstep.split_concat rs before rest r _).mp he
    · obtain hr | hc := h.1
      · simp [hr]
      · exact List.mem_append_left _ (hc before expiry rest' hrs)
    · exact absurd hr (h.2 expiry)

/-- A replayed id is live if one of its COMMITs has no PUBLISHED behind it. -/
theorem consumed_replayAll_eq_none (rs : List Record) (id : GrantId) :
    (Caches.replayAll rs).consumed.lookup id=none ↔ Closed rs id := by
  induction rs using List.reverseRecOn with
  | nil => simp [Caches.replayAll,Caches.empty,Closed]
  | append_singleton rs r ih =>
    rw [replayAll_snoc,closed_snoc,← ih,lookup_replay]
    cases r with
    | commit x expiry =>
      by_cases hx : id=x
      · subst hx
        simp
      · have hx' : x≠id := fun he => hx he.symm
        simp [hx,hx']
    | published x =>
      by_cases hx : id=x
      · subst hx
        simp
      · have hx' : x≠id := fun he => hx he.symm
        simp [hx,hx']
    | revoke pk certExpiry => simp
    | firstReceipt x time => simp

/-- A published id gets no COMMIT. -/
theorem consumed_live_published (c : Caches) (r : Record) (id : GrantId) (hp : id∈c.published)
    (hc : id∉c.consumed) : (c.live r).consumed.lookup id=none := by
  have hnone := AList.lookup_eq_none.mpr hc
  rw [Caches.live]
  by_cases hh : c.Holds r
  · rw [if_pos hh,hnone]
  · rw [if_neg hh]
    cases r with
    | commit x expiry =>
      have hx : id≠x := fun he => hh (Or.inr (he ▸ hp))
      rw [← hnone]
      exact AList.lookup_insert_ne hx
    | published x =>
      have hx : id≠x := fun he => hh (he ▸ hp)
      rw [← hnone]
      exact AList.lookup_erase_ne hx
    | revoke pk certExpiry => exact hnone
    | firstReceipt x time => exact hnone

/-- A COMMIT is kept only where there is none. -/
theorem consumed_live_commit (c : Caches) (x : GrantId) (expiry : UInt64) (id : GrantId) (hp : id∉c.published) :
    (c.live (.commit x expiry)).consumed.lookup id=
      (c.consumed.lookup id).or ((commits [.commit x expiry]).dlookup id) := by
  have hlast : commits [.commit x expiry]=[⟨x,expiry⟩] := rfl
  rw [Caches.live,hlast]
  by_cases hx : id=x
  · subst hx
    by_cases hm : id∈c.consumed
    · obtain ⟨v,hv⟩ := Option.isSome_iff_exists.mp (AList.lookup_isSome.mpr hm)
      have hh : c.Holds (.commit id expiry) := Or.inl hm
      rw [if_pos hh,hv]
      rfl
    · have hh : ¬c.Holds (.commit id expiry) := by simp [Caches.Holds,hm,hp]
      rw [if_neg hh,AList.lookup_eq_none.mpr hm,List.dlookup_cons_eq]
      exact AList.lookup_insert _
  · rw [dlookup_singleton_ne hx,Option.or_none]
    by_cases hh : c.Holds (.commit x expiry)
    · rw [if_pos hh]
    · rw [if_neg hh]
      exact AList.lookup_insert_ne hx

/-- A live id keeps its COMMIT until it is published, and a published one gets none. -/
theorem consumed_live (c : Caches) (r : Record) (id : GrantId) (hc : id∈c.published → id∉c.consumed) :
    (c.live r).consumed.lookup id=
      if id∈(c.live r).published then none else (c.consumed.lookup id).or ((commits [r]).dlookup id) := by
  simp only [mem_published_live]
  by_cases hp : id∈c.published
  · rw [if_pos (Or.inl hp)]
    exact consumed_live_published c r id hp (hc hp)
  · cases r with
    | commit x expiry =>
      have hnot : ¬(id∈c.published ∨ Record.commit x expiry=.published id) := by simp [hp]
      rw [if_neg hnot]
      exact consumed_live_commit c x expiry id hp
    | published x =>
      have hnone : commits [.published x]=[] := rfl
      rw [Caches.live,hnone,List.dlookup_nil,Option.or_none]
      by_cases hx : id=x
      · subst hx
        have hh : ¬c.Holds (.published id) := hp
        rw [if_neg hh,if_pos (Or.inr rfl)]
        exact AList.lookup_erase _ _
      · have hx' : x≠id := fun he => hx he.symm
        have hnot : ¬(id∈c.published ∨ Record.published x=.published id) := by simp [hp,hx']
        rw [if_neg hnot]
        by_cases hh : c.Holds (.published x)
        · rw [if_pos hh]
        · rw [if_neg hh]
          exact AList.lookup_erase_ne hx
    | revoke pk certExpiry =>
      have hnot : ¬(id∈c.published ∨ Record.revoke pk certExpiry=.published id) := by simp [hp]
      rw [Caches.live,if_neg hnot]
      by_cases hh : c.Holds (.revoke pk certExpiry) <;> simp [hh,Caches.apply,commits]
    | firstReceipt x time =>
      have hnot : ¬(id∈c.published ∨ Record.firstReceipt x time=.published id) := by simp [hp]
      rw [Caches.live,if_neg hnot]
      by_cases hh : c.Holds (.firstReceipt x time) <;> simp [hh,Caches.apply,commits]

/-- A live id has its first COMMIT, a published one none. -/
theorem consumed_liveAll (rs : List Record) (id : GrantId) :
    (Caches.liveAll rs).consumed.lookup id=if .published id∈rs then none else (commits rs).dlookup id := by
  induction rs using List.reverseRecOn with
  | nil => rfl
  | append_singleton rs r ih =>
    have hpub := published_liveAll rs id
    have hapart : id∈(Caches.liveAll rs).published → id∉(Caches.liveAll rs).consumed := by
      intro h
      rw [← AList.lookup_eq_none,ih,if_pos (hpub.mp h)]
    rw [liveAll_snoc,consumed_live _ r id hapart,← liveAll_snoc,commits_append,List.dlookup_append,ih]
    simp only [published_liveAll]
    by_cases hp : .published id∈rs++[r]
    · rw [if_pos hp,if_pos hp]
    · have hp' : .published id∉rs := fun h => hp (List.mem_append_left _ h)
      rw [if_neg hp,if_neg hp,if_neg hp']

/-- The commit order is the same on both sides: an id enters it once, before it is published. -/
theorem consumedOrder_liveAll (rs : List Record) :
    (Caches.replayAll rs).consumedOrder=(Caches.liveAll rs).consumedOrder := by
  induction rs using List.reverseRecOn with
  | nil => rfl
  | append_singleton rs r ih =>
    rw [replayAll_snoc,liveAll_snoc,Caches.live]
    cases r with
    | commit id expiry =>
      have hfresh : (id∉(Caches.replayAll rs).published ∧ id∉(Caches.replayAll rs).consumed) ↔
          ¬(Caches.liveAll rs).Holds (.commit id expiry) := by
        simp only [Caches.Holds,not_or,published_replayAll,published_liveAll]
        rw [and_comm]
        refine and_congr_left (fun hp => not_congr ?_)
        rw [← AList.lookup_isSome,consumed_replayAll rs id hp,← AList.lookup_isSome,consumed_liveAll,if_neg hp,
          List.dlookup_isSome,List.dlookup_isSome]
        simp [List.keys]
      by_cases hh : (Caches.liveAll rs).Holds (.commit id expiry)
      · rw [if_pos hh,← ih]
        exact if_neg (fun h => hfresh.mp h hh)
      · rw [if_neg hh]
        have hpush : ((Caches.replayAll rs).replay (.commit id expiry)).consumedOrder=
            (Caches.replayAll rs).consumedOrder++[id] := if_pos (hfresh.mpr hh)
        rw [hpush,ih]
        rfl
    | published id =>
      by_cases hh : (Caches.liveAll rs).Holds (.published id) <;> simp [hh,Caches.apply,Caches.replay,ih]
    | revoke pk certExpiry =>
      by_cases hh : (Caches.liveAll rs).Holds (.revoke pk certExpiry) <;> simp [hh,Caches.apply,Caches.replay,ih]
    | firstReceipt id time =>
      by_cases hh : (Caches.liveAll rs).Holds (.firstReceipt id time) <;>
        simp [hh,Caches.apply,Caches.replay,ih]

/-- Replay and the mutators agree on the commit order, the tombstones and the anchors of every log,
and on the rest of a plain one. -/
theorem alike_iff_plain (rs : List Record) : (Caches.replayAll rs).Alike (Caches.liveAll rs) ↔ Plain rs := by
  have hrevoked : ∀pk,(Caches.replayAll rs).revoked.lookup pk=(revokes rs).reverse.dlookup pk ∧
      (Caches.liveAll rs).revoked.lookup pk=(revokes rs).dlookup pk := by
    intro pk
    rw [revoked_replayAll,revoked_liveAll,lookup_insertAll_reverse,lookup_insertNew]
    simp
  constructor
  · intro h
    refine ⟨?_,?_,?_⟩
    · intro id hp
      rw [← consumed_replayAll_eq_none,h.consumed,consumed_liveAll,if_pos hp]
    · intro id hp
      rw [← consumed_replayAll rs id hp,h.consumed,consumed_liveAll,if_neg hp]
    · intro pk
      rw [← (hrevoked pk).1,← (hrevoked pk).2,h.revoked]
  · intro h
    refine ⟨?_,consumedOrder_liveAll rs,?_,?_,?_⟩
    · intro id
      rw [consumed_liveAll]
      by_cases hp : .published id∈rs
      · rw [if_pos hp,consumed_replayAll_eq_none]
        exact h.published id hp
      · rw [if_neg hp,consumed_replayAll rs id hp]
        exact h.commits id hp
    · ext id
      rw [published_replayAll,published_liveAll]
    · intro pk
      rw [(hrevoked pk).1,(hrevoked pk).2]
      exact h.revokes pk
    · intro id
      rw [firstReceipts_replayAll,firstReceipts_liveAll]

end Folds

/-- A handle that recovers a log of whole records has the caches of the mutators called with
these records' arguments exactly if the log is plain. -/
theorem recover_is_live_fold_iff (io : Io) (s : Store) (rs : List Record) (hf : s.ledger.file.isSome)
    (hs : io.seek=true) (hr : io.read=none) (hd : s.disk.log=ledgerFormat.encode rs) :
    ((∃recovery,(s.recover io).1=.ok recovery) ∧
      (s.recover io).2.ledger.toCaches.Alike (Caches.liveAll rs)) ↔ Plain rs := by
  have hrec := recover_of_records io s.ledger s.disk rs [] hf (by simpa using hd) ledgerFormat.torn_nil hs hr
  rw [hrec,← alike_iff_plain]
  exact ⟨fun h => h.2,fun h => ⟨⟨_,rfl⟩,h⟩⟩

def republished : List Record :=
  [.commit (sampleId 1) 50,.published (sampleId 1),.commit (sampleId 1) 60]

def Disk.of (rs : List Record) : Disk := ⟨ledgerFormat.encode rs,none,ledgerFormat.encode rs⟩

theorem recover_is_live_fold_iff_sample :
    ((∃recovery,((Disk.of (republished.take 2)).opened.recover Io.good).1=.ok recovery) ∧
      ((Disk.of (republished.take 2)).opened.recover Io.good).2.ledger.toCaches.Alike
        (Caches.liveAll (republished.take 2))) ↔ Plain (republished.take 2) :=
  recover_is_live_fold_iff Io.good (Disk.of (republished.take 2)).opened (republished.take 2) rfl rfl rfl rfl

/-- A COMMIT behind the PUBLISHED of its id brings the grant back, live and an orphan. -/
theorem republished_grant_lives :
    let s := ((Disk.of republished).opened.recover Io.good).2
    (((Disk.of republished).opened.recover Io.good).1=.ok ⟨[sampleId 1],1,0⟩ ∧
      s.ledger.isConsumed (sampleId 1)=true ∧ s.ledger.isPublished (sampleId 1)=true) ∧
    ((Caches.liveAll republished).isConsumed (sampleId 1)=false ∧ (Caches.liveAll republished).orphans=[]) ∧
    ¬s.ledger.toCaches.Alike (Caches.liveAll republished) := by
  refine ⟨by decide,by decide,?_⟩
  intro h
  exact absurd (h.consumed (sampleId 1)) (by decide)

end Bolina.State
