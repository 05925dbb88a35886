import Bolina.Framework.KeyedFold
import Bolina.State.LedgerRestart

namespace Bolina.State

open RecordLog GuardedRun KeyedFold

/-- Two cache states no query tells apart, with the same orphans. -/
structure Caches.Same (c c' : Caches) : Prop where
  consumed : ∀id,c.consumed.lookup id=c'.consumed.lookup id
  published : c.published=c'.published
  revoked : ∀pk,c.revoked.lookup pk=c'.revoked.lookup pk
  firstReceipts : ∀id,c.firstReceipts.lookup id=c'.firstReceipts.lookup id
  orphans : ∀id,id∈c.orphans ↔ id∈c'.orphans

/-- Every live id has its place in the commit order, unless it is published. -/
def Caches.Listed (c : Caches) : Prop := ∀id∈c.consumed,id∈c.published ∨ id∈c.consumedOrder

theorem mem_orphans (c : Caches) (id : GrantId) : id∈c.orphans ↔ id∈c.consumedOrder ∧ id∈c.consumed := by
  simp [Caches.orphans]

theorem same_refl (c : Caches) : c.Same c :=
  ⟨fun _ => rfl,rfl,fun _ => rfl,fun _ => rfl,fun _ => Iff.rfl⟩

theorem Caches.Same.holds {c c' : Caches} (h : c.Same c') (r : Record) : c.Holds r ↔ c'.Holds r := by
  cases r with
  | commit id expiry => simp only [Caches.Holds,mem_iff_of_lookup h.consumed id,h.published]
  | published id => simp only [Caches.Holds,h.published]
  | revoke pk certExpiry => exact mem_iff_of_lookup h.revoked pk
  | firstReceipt id time => exact mem_iff_of_lookup h.firstReceipts id

theorem Caches.Same.apply {c c' : Caches} (h : c.Same c') (r : Record) :
    (c.apply r).Same (c'.apply r) := by
  cases r with
  | commit id expiry =>
    refine ⟨lookup_insert_congr h.consumed id expiry,h.published,h.revoked,h.firstReceipts,?_⟩
    intro x
    have ho := h.orphans x
    simp only [mem_orphans,Caches.apply,List.mem_append,List.mem_singleton,AList.mem_insert] at ho ⊢
    have hc := mem_iff_of_lookup h.consumed x
    tauto
  | published id =>
    refine ⟨lookup_erase_congr h.consumed id,?_,h.revoked,h.firstReceipts,?_⟩
    · simp only [Caches.apply,h.published]
    · intro x
      have ho := h.orphans x
      simp only [mem_orphans,Caches.apply,AList.mem_erase] at ho ⊢
      tauto
  | revoke pk certExpiry =>
    exact ⟨h.consumed,h.published,lookup_insert_congr h.revoked pk certExpiry,h.firstReceipts,h.orphans⟩
  | firstReceipt id time =>
    exact ⟨h.consumed,h.published,h.revoked,lookup_insert_congr h.firstReceipts id time,h.orphans⟩

theorem Caches.Listed.replay {c : Caches} (h : c.Listed) (r : Record) : (c.replay r).Listed := by
  intro x hx
  have hc := h x
  cases r with
  | commit id expiry =>
    simp only [Caches.replay,AList.mem_insert] at hx ⊢
    split
    · simp only [List.mem_append,List.mem_singleton]
      tauto
    · by_cases he : x=id
      · subst he
        tauto
      · tauto
  | published id =>
    simp only [Caches.replay,AList.mem_erase,Finset.mem_insert] at hx ⊢
    tauto
  | revoke pk certExpiry => exact hc hx
  | firstReceipt id time => exact hc hx

theorem Caches.Listed.apply {c : Caches} (h : c.Listed) (r : Record) (hr : ¬c.Holds r) :
    (c.apply r).Listed := by
  rw [← replay_of_fresh c r hr]
  exact h.replay r

theorem listed_foldl (rs : List Record) (c : Caches) (h : c.Listed) : (rs.foldl Caches.replay c).Listed := by
  induction rs generalizing c with
  | nil => exact h
  | cons r rs ih => exact ih _ (h.replay r)

theorem listed_replayAll (rs : List Record) : (Caches.replayAll rs).Listed := by
  apply listed_foldl
  intro id hid
  simp [Caches.empty] at hid

theorem dropExpired_consumed (c : Caches) (nowMs : UInt64) :
    (c.dropExpired nowMs).consumed=eraseAll c.consumed (c.expired nowMs) := rfl

theorem mem_expiredIds (c : Caches) (nowMs : UInt64) (id : GrantId) :
    id∈c.expired nowMs ↔ ∃expiry,c.consumed.lookup id=some expiry ∧ expiry ≤ nowMs := by
  rw [Caches.expired,List.mem_map]
  constructor
  · intro h
    obtain ⟨e,he,rfl⟩ := h
    obtain ⟨hm,hle⟩ := List.mem_filter.mp he
    exact ⟨e.2,AList.mem_lookup_iff.mpr hm,of_decide_eq_true hle⟩
  · intro h
    obtain ⟨expiry,hl,hle⟩ := h
    exact ⟨⟨id,expiry⟩,List.mem_filter.mpr ⟨AList.mem_lookup_iff.mp hl,decide_eq_true hle⟩,rfl⟩

/-- The grants that a prune keeps are those that have not expired. -/
theorem lookup_dropExpired (c : Caches) (nowMs : UInt64) (id : GrantId) (expiry : UInt64) :
    (c.dropExpired nowMs).consumed.lookup id=some expiry ↔ c.consumed.lookup id=some expiry ∧ nowMs < expiry := by
  rw [dropExpired_consumed,lookup_eraseAll]
  by_cases hm : id∈c.expired nowMs
  · rw [if_pos hm]
    obtain ⟨e,he,hle⟩ := (mem_expiredIds c nowMs id).mp hm
    constructor
    · intro h
      cases h
    · intro h
      rw [he] at h
      cases h.1
      exact absurd h.2 (UInt64.not_lt.mpr hle)
  · rw [if_neg hm]
    refine ⟨fun h => ⟨h,?_⟩,fun h => h.1⟩
    exact UInt64.not_le.mp (fun hle => hm ((mem_expiredIds c nowMs id).mpr ⟨expiry,h,hle⟩))

theorem Caches.Listed.dropExpired {c : Caches} (h : c.Listed) (nowMs : UInt64) :
    (c.dropExpired nowMs).Listed := by
  intro id hid
  have hc : id∈c.consumed := by
    rw [dropExpired_consumed,mem_eraseAll] at hid
    exact hid.1
  cases h id hc with
  | inl hp => exact Or.inl hp
  | inr ho =>
    right
    exact List.mem_filter.mpr ⟨ho,decide_eq_true hid⟩

theorem replayAll_snoc (rs : List Record) (r : Record) :
    Caches.replayAll (rs++[r])=(Caches.replayAll rs).replay r := by
  rw [Caches.replayAll,List.foldl_append]
  rfl

/-- Each map of the caches is folded on its own. -/
theorem replay_maps (rs : List Record) (c : Caches) :
    (rs.foldl Caches.replay c).consumed=rs.foldl (fun m r => match r with
      | .commit id expiry => m.insert id expiry
      | .published id => m.erase id
      | _ => m) c.consumed ∧
    (rs.foldl Caches.replay c).published=rs.foldl (fun m r => match r with
      | .published id => insert id m
      | _ => m) c.published ∧
    (rs.foldl Caches.replay c).revoked=rs.foldl (fun m r => match r with
      | .revoke pk certExpiry => m.insert pk certExpiry
      | _ => m) c.revoked ∧
    (rs.foldl Caches.replay c).firstReceipts=rs.foldl (fun m r => match r with
      | .firstReceipt id time => if id∈m then m else m.insert id time
      | _ => m) c.firstReceipts := by
  induction rs generalizing c with
  | nil => exact ⟨rfl,rfl,rfl,rfl⟩
  | cons r rs ih =>
    obtain ⟨h1,h2,h3,h4⟩ := ih (c.replay r)
    simp only [List.foldl_cons,h1,h2,h3,h4]
    cases r <;> exact ⟨rfl,rfl,rfl,rfl⟩

/-- The maps an image was made from. -/
structure ImageOf (c c' : Caches) : Prop where
  consumed : ∀id,c.consumed.lookup id=c'.consumed.lookup id
  published : c.published=∅
  revoked : ∀pk,c.revoked.lookup pk=c'.revoked.lookup pk
  firstReceipts : ∀id,c.firstReceipts.lookup id=c'.firstReceipts.lookup id

/-- The image of a rewrite replays to the maps it was made from, whatever their order. -/
theorem replay_imageRecords (io : Io) (c : Caches) : ImageOf (Caches.replayAll (c.imageRecords io)) c := by
  obtain ⟨h1,h2,h3,h4⟩ := replay_maps (c.imageRecords io) Caches.empty
  have keys : ∀{n : Nat} (m : TimeMap n),(io.order m).NodupKeys := fun m =>
    (List.perm_nodupKeys (io.orderPerm m)).mpr m.nodupKeys
  constructor
  · intro id
    have hfold : (Caches.replayAll (c.imageRecords io)).consumed=insertAll ∅ (io.order c.consumed) := by
      rw [Caches.replayAll,h1]
      simp [Caches.imageRecords,List.foldl_append,List.foldl_map,Caches.empty,insertAll]
    rw [hfold,lookup_insertAll _ _ (keys _),dlookup_eq_of_perm (io.orderPerm _)]
    simp
  · rw [Caches.replayAll,h2]
    simp [Caches.imageRecords,List.foldl_append,List.foldl_map,Caches.empty]
  · intro pk
    have hfold : (Caches.replayAll (c.imageRecords io)).revoked=insertAll ∅ (io.order c.revoked) := by
      rw [Caches.replayAll,h3]
      simp [Caches.imageRecords,List.foldl_append,List.foldl_map,Caches.empty,insertAll]
    rw [hfold,lookup_insertAll _ _ (keys _),dlookup_eq_of_perm (io.orderPerm _)]
    simp
  · intro id
    have hfold : (Caches.replayAll (c.imageRecords io)).firstReceipts=
        insertNew ∅ (io.order c.firstReceipts) := by
      rw [Caches.replayAll,h4]
      simp [Caches.imageRecords,List.foldl_append,List.foldl_map,Caches.empty,insertNew]
    rw [hfold,lookup_insertNew,dlookup_eq_of_perm (io.orderPerm _)]
    simp

/-- With no tombstones to lose, the image of a rewrite replays to the caches it
was made from. -/
theorem replay_image (io : Io) (c : Caches) (hp : c.published=∅) (hl : c.Listed) :
    (Caches.replayAll (c.imageRecords io)).Same c := by
  have h := replay_imageRecords io c
  refine ⟨h.consumed,h.published.trans hp.symm,h.revoked,h.firstReceipts,?_⟩
  intro id
  have hmem := mem_iff_of_lookup h.consumed id
  have hleft := listed_replayAll (c.imageRecords io) id
  have hright := hl id
  rw [h.published] at hleft
  rw [hp] at hright
  simp only [mem_orphans,Finset.notMem_empty,false_or] at hleft hright ⊢
  tauto

/-- The bytes of a log are whole records and the beginning of at most one more;
the caches are the state of the whole ones. -/
structure Healthy (s : Store) (rs : List Record) (p : Bytes) : Prop where
  log : s.disk.log=ledgerFormat.encode rs++p
  torn : ledgerFormat.Torn p
  same : (Caches.replayAll rs).Same s.ledger.toCaches
  listed : s.ledger.Listed

/-- An append starts at the end of a file without a torn tail; after a rewrite that
means at the start of an empty one. -/
structure WritesWhole (s : Store) (x : Io × Call) : Prop where
  direct : ∀r pos,x.2.Writes s.ledger.toCaches r → s.ledger.file=some pos →
    pos=s.disk.log.length ∧ ∃rs,s.disk.log=ledgerFormat.encode rs
  after : ∀nowMs r,x.2.WritesAfter s.ledger.toCaches nowMs r → x.1.Replaces →
    (s.ledger.dropExpired nowMs).image x.1=[]

/-- Besides, a rewrite has no tombstone to lose. -/
structure Heals (s : Store) (x : Io × Call) : Prop where
  whole : WritesWhole s x
  tombstones : ∀nowMs,x.2.Rewrites s.ledger.toCaches nowMs → s.ledger.published=∅

theorem records_unique (rs rs' : List Record) (p : Bytes) (hp : ledgerFormat.Torn p)
    (h : ledgerFormat.encode rs++p=ledgerFormat.encode rs') : rs=rs' ∧ p=[] := by
  have hrs : rs=rs' := by
    rw [← ledgerFormat.records_encode rs p hp,h,← List.append_nil (ledgerFormat.encode rs'),
      ledgerFormat.records_encode rs' [] ledgerFormat.torn_nil]
  subst hrs
  exact ⟨rfl,by simpa using h⟩

theorem healthy_replaced (io : Io) (s : Store) (nowMs : UInt64) (file : Option Nat)
    (hp : s.ledger.published=∅) (hl : s.ledger.Listed) :
    Healthy ((s.dropped nowMs).replaced ((s.ledger.dropExpired nowMs).image io) file)
      ((s.ledger.dropExpired nowMs).imageRecords io) [] where
  log := (List.append_nil _).symm
  torn := ledgerFormat.torn_nil
  same := replay_image io _ hp (hl.dropExpired nowMs)
  listed := hl.dropExpired nowMs

theorem healthy_logged (s : Store) (rs : List Record) (r : Record) (h : Healthy s rs [])
    (hr : ¬s.ledger.Holds r) : Healthy (s.logged s.disk.log.length r) (rs++[r]) [] where
  log := by
    have hlog := h.log
    rw [List.append_nil] at hlog ⊢
    simp only [Store.logged,writeAt_end]
    rw [hlog,ledgerFormat.encode_concat]
    rfl
  torn := ledgerFormat.torn_nil
  same := by
    have hfresh : ¬(Caches.replayAll rs).Holds r := fun hh => hr ((h.same.holds r).mp hh)
    rw [replayAll_concat rs r hfresh]
    exact h.same.apply r
  listed := h.listed.apply r hr

theorem dropExpired_holds (c : Caches) (nowMs : UInt64) (r : Record) (h : ¬c.Holds r) :
    ¬(c.dropExpired nowMs).Holds r := by
  intro hh
  cases r with
  | commit id expiry =>
    cases hh with
    | inl hc =>
      rw [dropExpired_consumed,mem_eraseAll] at hc
      exact h (Or.inl hc.1)
    | inr hp => exact h (Or.inr hp)
  | published id => exact h hh
  | revoke pk certExpiry => exact h hh
  | firstReceipt id time => exact h hh

theorem rewrites_fresh {c : Caches} {call : Call} {nowMs : UInt64} {r : Record}
    (h : call.WritesAfter c nowMs r) : ¬c.Holds r := by
  obtain ⟨⟨_,hp|⟨id,expiryMs,he,hh,_⟩⟩,hr,_⟩ := h
  · rw [hp] at hr
    simp [Call.record] at hr
  · rw [he] at hr
    cases Option.some.inj hr
    exact hh

/-- One call that returns `Ok`. -/
theorem healthy_step (s : Store) (x : Io × Call) (hok : (x.2.run x.1 s).1=.ok ()) (hg : Heals s x)
    (h : ∃rs p,Healthy s rs p) : ∃rs p,Healthy (callStep s x) rs p := by
  obtain ⟨io,call⟩ := x
  obtain ⟨rs,p,h⟩ := h
  have hok' : (call.run io s).1=.ok () := hok
  obtain ⟨res,hrun,_⟩|⟨nowMs,res,hrw,hrun,hp⟩|⟨r,hw,hrun⟩|⟨nowMs,r,hw,hp,hrun⟩ := run_cases io s call
  · rw [callStep,hrun]
    exact ⟨rs,p,h⟩
  · rw [hrun] at hok'
    obtain ⟨_,_,hpe⟩ := pruneExpired_ok io s nowMs hrw.1 (hp hok').2
    rw [callStep,hrun,hpe]
    exact ⟨_,[],healthy_replaced io s nowMs (some 0) (hg.tombstones nowMs hrw) h.listed⟩
  · rw [hrun] at hok'
    obtain ⟨pos,_,hf,_,hl⟩ := logRecord_ok io s r hok'
    obtain ⟨hend,rs',hrs'⟩ := hg.whole.direct r pos hw hf
    obtain ⟨_,rfl⟩ := records_unique rs rs' p h.torn (by rw [← h.log,hrs'])
    rw [callStep,hrun,hl,hend]
    exact ⟨rs++[r],[],healthy_logged s rs r h hw.2.1⟩
  · obtain ⟨_,hrep,hpe⟩ := pruneExpired_ok io s nowMs hw.1.1 hp
    rw [hrun] at hok'
    obtain ⟨pos,_,hf,_,hl⟩ := logRecord_ok io _ r hok'
    have himg := hg.whole.after nowMs r hw hrep
    have hrep' := healthy_replaced io s nowMs (some 0) (hg.tombstones nowMs hw.1) h.listed
    have hfresh := dropExpired_holds _ nowMs r (rewrites_fresh hw)
    rw [callStep,hrun,hl]
    rw [hpe] at hf ⊢
    cases hf
    have hzero : ((s.dropped nowMs).replaced ((s.ledger.dropExpired nowMs).image io)
        (some 0)).disk.log.length=0 := by simp [Store.replaced,himg]
    have hlogged := healthy_logged _ _ r hrep' hfresh
    rw [hzero] at hlogged
    exact ⟨_,[],hlogged⟩

/-- Torn-tail healing: a log that ends inside a record is recovered as the log of
its whole records, and so are the successful calls after that, as long as every
append finds a whole log with the cursor at its end and no rewrite loses a tombstone. -/
theorem torn_tail_heals (rs : List Record) (r : Record) (p : Bytes) (hp : p<+:r.bytes)
    (hl : p.length < r.bytes.length) (d : Disk) (hd : d.log=ledgerFormat.encode rs++p) (io : Io)
    (hio : io.Opens) :
    let s : Store := ⟨(Caches.replayAll rs).recovered d,{ d with temp := none }⟩
    reopen io d=(.ok ((Caches.replayAll rs).recovery,s.ledger),s.disk) ∧
    ∀calls,Meets callStep (fun s x => (x.2.run x.1 s).1=.ok () ∧ Heals s x) s calls →
      ∀io',io'.Opens → ∃recovery l d',
        reopen io' (calls.foldl callStep s).disk=(.ok (recovery,l),d') ∧
        l.toCaches.Same (calls.foldl callStep s).ledger.toCaches := by
  intro s
  have htorn : ledgerFormat.Torn p := ledgerFormat.torn_of_prefix r p hp hl
  refine ⟨reopen_of_records io hio d rs p hd htorn,?_⟩
  intro calls hm io' hio'
  have hstart : ∃rs p,Healthy s rs p := ⟨rs,p,hd,htorn,same_refl _,listed_replayAll rs⟩
  obtain ⟨rs',p',h⟩ :=
    invariant (fun s x hx hs => healthy_step s x hx.1 hx.2 hs) s calls hm hstart
  exact ⟨_,_,_,reopen_of_records io' hio' _ rs' p' h.log h.torn,h.same⟩

theorem writesWhole_prune (s : Store) (io : Io) (nowMs : UInt64) :
    WritesWhole s (io,.pruneExpired nowMs) where
  direct r pos hw := by simp [Call.Writes,Call.record] at hw
  after now r hw := by simp [Call.WritesAfter,Call.record] at hw

theorem writesWhole_append (s : Store) (io : Io) (call : Call) (rs : List Record)
    (hn : ∀nowMs,¬call.Rewrites s.ledger.toCaches nowMs)
    (hl : s.disk.log=ledgerFormat.encode rs) (hf : s.ledger.file=some s.disk.log.length) :
    WritesWhole s (io,call) where
  direct r pos _ hp := by
    rw [hf] at hp
    exact ⟨(Option.some.inj hp).symm,rs,hl⟩
  after nowMs r hw := absurd hw.1 (hn nowMs)

/-- A tombstone torn after five bytes; the prune that follows drops the only
commit, so the next one is written to the start of an empty file. -/
theorem torn_tail_heals_sample :
    let d : Disk := ⟨ledgerFormat.encode [.commit (sampleId 1) 50]++
      (Record.published (sampleId 1)).bytes.take 5,none,[]⟩
    let s : Store := ⟨(Caches.replayAll [.commit (sampleId 1) 50]).recovered d,{ d with temp := none }⟩
    let calls : List (Io × Call) :=
      [(Io.good,.pruneExpired 60),(Io.good,.commitConsumed (sampleId 2) 90 60)]
    ∃recovery l d',reopen Io.good (calls.foldl callStep s).disk=(.ok (recovery,l),d') ∧
      l.toCaches.Same (calls.foldl callStep s).ledger.toCaches := by
  intro d s calls
  have h := torn_tail_heals [.commit (sampleId 1) 50] (.published (sampleId 1))
    ((Record.published (sampleId 1)).bytes.take 5) (List.take_prefix _ _) (by decide) d rfl
    Io.good Io.good_opens
  refine h.2 calls ⟨⟨by decide,?_⟩,⟨by decide,?_⟩,trivial⟩ Io.good Io.good_opens
  · exact ⟨writesWhole_prune _ _ _,fun _ _ => by decide⟩
  · have hn := not_rewrites_of_room (callStep s (Io.good,.pruneExpired 60)).ledger.toCaches
      (.commitConsumed (sampleId 2) 90 60) (by simp) (by decide)
    exact ⟨writesWhole_append _ _ _ [] hn (by decide) (by decide),fun nowMs h => absurd h (hn nowMs)⟩

/-- One byte of a torn commit swallows the tombstone appended behind it: the call
returns `Ok`, and the next restart has lost it. -/
theorem torn_tail_swallows_append :
    let d : Disk := ⟨(Record.commit (sampleId 1) 50).bytes.take 1,none,[]⟩
    let s : Store := ⟨Caches.empty.recovered d,d⟩
    let s' := (s.markPublished Io.good (sampleId 2)).2
    reopen Io.good d=(.ok (Caches.empty.recovery,s.ledger),s.disk) ∧
    (s.markPublished Io.good (sampleId 2)).1=.ok () ∧ s'.ledger.isPublished (sampleId 2)=true ∧
    reopen Io.good s'.disk=(.ok (Caches.empty.recovery,Caches.empty.recovered s'.disk),s'.disk) ∧
    (Caches.empty.recovered s'.disk).isPublished (sampleId 2)=false := by
  intro d s s'
  exact ⟨rfl,rfl,rfl,rfl,rfl⟩

end Bolina.State
