import Bolina.State.LedgerTorn

namespace Bolina.State

open BigEndian RecordLog GuardedRun KeyedFold

/-- What is in a file, and whether all of it is on the medium. -/
structure Content where
  bytes : Bytes
  durable : Bool

/-- The directory of a ledger: the file at its path, the temporary file next to it, and
the file that a rename has replaced for the processes but may not have on the medium. -/
structure Volume where
  log : Content
  temp : Option Content
  replaced : Option Content

/-- What a prune asks of the operating system, the image one byte at a time. -/
inductive PruneStep where
  | createTemp
  | writeTemp (b : UInt8)
  | syncTemp
  | rename
  | syncDir
  | close
  | reopen
  | relock

def Volume.of (d : Disk) : Volume := ⟨⟨d.log,decide (d.synced=d.log)⟩,d.temp.map (fun bytes => ⟨bytes,false⟩),none⟩

def Volume.step (v : Volume) : PruneStep → Volume
  | .createTemp => { v with temp := some ⟨[],false⟩ }
  | .writeTemp b => { v with temp := v.temp.map (fun f => ⟨f.bytes++[b],false⟩) }
  | .syncTemp => { v with temp := v.temp.map (fun f => ⟨f.bytes,true⟩) }
  | .rename =>
    match v.temp with
    | some f => ⟨f,none,some v.log⟩
    | none => v
  | .syncDir => { v with replaced := none }
  | .close => v
  | .reopen => v
  | .relock => v

/-- The steps behind the rename. -/
def settleSteps (io : Io) (syncsDir : Bool) : List PruneStep :=
  (if syncsDir then [.syncDir] else [])++
    .close::(if !io.reopen then [] else .reopen::(if !io.relock then [] else [.relock]))

/-- The steps of a prune, up to the one that fails. -/
def Store.pruneSteps (io : Io) (syncsDir : Bool) (s : Store) (nowMs : UInt64) : List PruneStep :=
  if s.ledger.readOnly then []
  else if s.ledger.expired nowMs=[] then []
  else
    let image := (s.ledger.dropExpired nowMs).image io
    if !io.createTemp then []
    else
      match io.writeTemp with
      | some k => .createTemp::(image.take k).map .writeTemp
      | none =>
        .createTemp::image.map .writeTemp++
          (if !io.syncTemp then [] else .syncTemp::(if !io.rename then [] else .rename::settleSteps io syncsDir))

/-- The process dies and the machine goes on. -/
def Volume.Killed (v : Volume) (d : Disk) : Prop := d.log=v.log.bytes ∧ d.temp=v.temp.map Content.bytes

/-- The machine stops. The path names the file it names to the processes, or the one that
was replaced; contents that were synced are there, and the temporary file is in any state. -/
def Volume.CutOff (v : Volume) (d : Disk) : Prop :=
  ∃f,(f=v.log ∨ v.replaced=some f) ∧ (f.durable=true → d.log=f.bytes)

/-- The log replays to the caches. -/
def Mirrors (log : Bytes) (c : Caches) : Prop :=
  ∃c',Caches.replayLoop log.length log Caches.empty=(.ok (),c') ∧ c'.Same c

/-- Every revocation, every anchor and every live grant is there, and no other grant. -/
structure PrunedFrom (before : Caches) (nowMs : UInt64) (after : Caches) : Prop where
  revoked : ∀pk,after.revoked.lookup pk=before.revoked.lookup pk
  firstReceipts : ∀id,after.firstReceipts.lookup id=before.firstReceipts.lookup id
  live : ∀id expiry,before.consumed.lookup id=some expiry → nowMs < expiry → after.consumed.lookup id=some expiry
  noneNew : ∀id expiry,after.consumed.lookup id=some expiry → before.consumed.lookup id=some expiry

theorem prunedFrom_of_same {c c' : Caches} (h : c'.Same c) (nowMs : UInt64) : PrunedFrom c nowMs c' where
  revoked := h.revoked
  firstReceipts := h.firstReceipts
  live id _ hl _ := (h.consumed id).trans hl
  noneNew id _ hl := (h.consumed id).symm.trans hl

/-- What the image of a prune replays to. -/
theorem prunedFrom_image (io : Io) (c : Caches) (nowMs : UInt64) :
    PrunedFrom c nowMs (Caches.replayAll ((c.dropExpired nowMs).imageRecords io)) := by
  have h := replay_imageRecords io (c.dropExpired nowMs)
  refine ⟨h.revoked,h.firstReceipts,?_,?_⟩
  · intro id expiry hl hlive
    rw [h.consumed]
    exact (lookup_dropExpired c nowMs id expiry).mpr ⟨hl,hlive⟩
  · intro id expiry hl
    rw [h.consumed] at hl
    exact ((lookup_dropExpired c nowMs id expiry).mp hl).1

section Stages

variable {old : Content} {image : Bytes} {v : Volume}

/-- Nothing has happened to the ledger file. -/
structure Staging (old : Content) (v : Volume) : Prop where
  log : v.log=old
  replaced : v.replaced=none

/-- The path names the image, whose bytes were synced before. -/
structure Renamed (old : Content) (image : Bytes) (v : Volume) : Prop where
  log : v.log=⟨image,true⟩
  replaced : ∀f,v.replaced=some f → f=old

def Stage (old : Content) (image : Bytes) (v : Volume) : Prop := Staging old v ∨ Renamed old image v

/-- The steps before the rename, on the temporary file. -/
def PruneStep.Stages : PruneStep → Prop
  | .createTemp => True
  | .writeTemp _ => True
  | .syncTemp => True
  | _ => False

/-- The steps behind the rename. -/
def PruneStep.Settles : PruneStep → Prop
  | .syncDir => True
  | .close => True
  | .reopen => True
  | .relock => True
  | _ => False

theorem Staging.step (v : Volume) (x : PruneStep) (hx : x.Stages) (h : Staging old v) : Staging old (v.step x) := by
  cases x with
  | createTemp => exact ⟨h.log,h.replaced⟩
  | writeTemp b => exact ⟨h.log,h.replaced⟩
  | syncTemp => exact ⟨h.log,h.replaced⟩
  | rename => exact hx.elim
  | syncDir => exact hx.elim
  | close => exact hx.elim
  | reopen => exact hx.elim
  | relock => exact hx.elim

theorem Renamed.step (v : Volume) (x : PruneStep) (hx : x.Settles) (h : Renamed old image v) :
    Renamed old image (v.step x) := by
  cases x with
  | createTemp => exact hx.elim
  | writeTemp b => exact hx.elim
  | syncTemp => exact hx.elim
  | rename => exact hx.elim
  | syncDir => exact ⟨h.log,fun f hf => (by cases hf)⟩
  | close => exact h
  | reopen => exact h
  | relock => exact h

theorem Staging.renamed (h : Staging old v) (ht : v.temp=some ⟨image,true⟩) : Renamed old image (v.step .rename) := by
  rw [Volume.step,ht]
  exact ⟨rfl,fun f hf => (Option.some.inj hf).symm.trans h.log⟩

theorem staging_run (h : Staging old v) (xs : List PruneStep) (hxs : ∀x∈xs,x.Stages) :
    Always Volume.step (Stage old image) v xs ∧ Staging old (xs.foldl Volume.step v) := by
  have hrun := always_of_step Staging.step v xs hxs h
  exact ⟨always_mono (fun _ => Or.inl) v xs hrun,always_foldl v xs hrun⟩

theorem settle_run (io : Io) (syncsDir : Bool) (h : Renamed old image v) :
    Always Volume.step (Stage old image) v (settleSteps io syncsDir) := by
  have hxs : ∀x∈settleSteps io syncsDir,x.Settles := by
    intro x hx
    cases x with
    | createTemp => exact absurd hx (by rw [settleSteps]; split_ifs <;> simp)
    | writeTemp b => exact absurd hx (by rw [settleSteps]; split_ifs <;> simp)
    | syncTemp => exact absurd hx (by rw [settleSteps]; split_ifs <;> simp)
    | rename => exact absurd hx (by rw [settleSteps]; split_ifs <;> simp)
    | syncDir => trivial
    | close => trivial
    | reopen => trivial
    | relock => trivial
  exact always_mono (fun _ => Or.inr) v _ (always_of_step Renamed.step v _ hxs h)

/-- The temporary file holds what has been written. -/
theorem write_run (v : Volume) (f : Content) (bytes : Bytes) (h : v.temp=some f) :
    ∃durable,((bytes.map .writeTemp).foldl Volume.step v).temp=some ⟨f.bytes++bytes,durable⟩ := by
  induction bytes generalizing v f with
  | nil => exact ⟨f.durable,by rw [List.append_nil]; exact h⟩
  | cons b bytes ih =>
    have hb : (v.step (.writeTemp b)).temp=some ⟨f.bytes++[b],false⟩ := by
      rw [Volume.step,h]
      rfl
    obtain ⟨durable,hlast⟩ := ih _ _ hb
    refine ⟨durable,?_⟩
    rw [List.map_cons,List.foldl_cons,hlast,List.append_assoc]
    rfl

theorem write_stages (bytes : Bytes) (x : PruneStep) (hx : x∈PruneStep.createTemp::bytes.map .writeTemp) : x.Stages := by
  cases List.mem_cons.mp hx with
  | inl h =>
    rw [h]
    trivial
  | inr h =>
    obtain ⟨b,-,hb⟩ := List.mem_map.mp h
    rw [← hb]
    trivial

/-- Wherever a prune is cut, the path names the old file or the whole image. -/
theorem prune_stages (io : Io) (syncsDir : Bool) (s : Store) (nowMs : UInt64) (h : Staging old v) :
    Always Volume.step (Stage old ((s.ledger.dropExpired nowMs).image io)) v (s.pruneSteps io syncsDir nowMs) := by
  rw [Store.pruneSteps]
  split
  · exact Or.inl h
  split
  · exact Or.inl h
  dsimp only
  generalize (s.ledger.dropExpired nowMs).image io=image
  split
  · exact Or.inl h
  split
  · exact (staging_run h _ (write_stages _)).1
  · obtain ⟨hwrite,hwritten⟩ := @staging_run old image v h _ (write_stages image)
    rw [always_append]
    refine ⟨hwrite,?_⟩
    obtain ⟨durable,htemp⟩ := write_run (v.step .createTemp) ⟨[],false⟩ image rfl
    rw [← List.foldl_cons] at htemp
    generalize (.createTemp::image.map .writeTemp).foldl Volume.step v=v₁ at hwritten htemp ⊢
    split
    · exact Or.inl hwritten
    have hsync : Staging old (v₁.step .syncTemp) := Staging.step v₁ .syncTemp trivial hwritten
    refine ⟨Or.inl hwritten,?_⟩
    split
    · exact Or.inl hsync
    have htemp' : (v₁.step .syncTemp).temp=some ⟨image,true⟩ := by
      rw [Volume.step,htemp]
      rfl
    exact ⟨Or.inl hsync,settle_run io syncsDir (hsync.renamed htemp')⟩

/-- What a crash leaves at the path. -/
theorem log_of_crash {d : Disk} (h : Stage old image v) (hcrash : v.Killed d ∨ old.durable=true ∧ v.CutOff d) :
    d.log=old.bytes ∨ d.log=image := by
  cases h with
  | inl hs =>
    left
    cases hcrash with
    | inl hk => rw [hk.1,hs.log]
    | inr hc =>
      obtain ⟨hold,f,hf,hd⟩ := hc
      have hfile : f=old := by
        cases hf with
        | inl hf => exact hf.trans hs.log
        | inr hf =>
          rw [hs.replaced] at hf
          cases hf
      subst hfile
      exact hd hold
  | inr hr =>
    cases hcrash with
    | inl hk => exact Or.inr (by rw [hk.1,hr.log])
    | inr hc =>
      obtain ⟨hold,f,hf,hd⟩ := hc
      cases hf with
      | inl hf =>
        rw [hr.log] at hf
        subst hf
        exact Or.inr (hd rfl)
      | inr hf =>
        have hfile := hr.replaced f hf
        subst hfile
        exact Or.inl (hd hold)

theorem settle_disk (io : Io) (syncsDir : Bool) (v : Volume) :
    ((settleSteps io syncsDir).foldl Volume.step v).log=v.log ∧
      ((settleSteps io syncsDir).foldl Volume.step v).temp=v.temp := by
  rw [settleSteps]
  split_ifs <;> exact ⟨rfl,rfl⟩

theorem killed_of (d : Disk) : (Volume.of d).Killed d := by
  refine ⟨rfl,?_⟩
  rw [Volume.of,Option.map_map]
  cases d.temp <;> rfl

/-- A prune that is not cut leaves the disk that `prune_expired` leaves. -/
theorem prune_disk (io : Io) (syncsDir : Bool) (s : Store) (nowMs : UInt64) :
    ((s.pruneSteps io syncsDir nowMs).foldl Volume.step (Volume.of s.disk)).Killed (s.pruneExpired io nowMs).2.disk := by
  rw [Store.pruneSteps,Store.pruneExpired]
  by_cases hro : s.ledger.readOnly=true
  · rw [if_pos hro,if_pos hro]
    exact killed_of s.disk
  rw [if_neg hro,if_neg hro]
  by_cases he : s.ledger.expired nowMs=[]
  · rw [if_pos he,if_pos he]
    exact killed_of s.disk
  rw [if_neg he,if_neg he]
  dsimp only
  generalize (s.ledger.dropExpired nowMs).image io=image
  rw [Store.rewrite]
  by_cases hc : (!io.createTemp)=true
  · rw [if_pos hc,if_pos hc]
    exact killed_of s.disk
  rw [if_neg hc,if_neg hc]
  have hstage : ∀bytes : Bytes,Staging (Volume.of s.disk).log
      ((PruneStep.createTemp::bytes.map .writeTemp).foldl Volume.step (Volume.of s.disk)) := fun bytes =>
    (@staging_run _ [] _ ⟨rfl,rfl⟩ _ (write_stages bytes)).2
  have hwrite := fun bytes => write_run ((Volume.of s.disk).step .createTemp) ⟨[],false⟩ bytes rfl
  cases io.writeTemp with
  | some k =>
    obtain ⟨durable,htemp⟩ := hwrite (image.take k)
    rw [← List.foldl_cons] at htemp
    refine ⟨congrArg Content.bytes (hstage (image.take k)).log.symm,?_⟩
    rw [htemp]
    rfl
  | none =>
    obtain ⟨durable,htemp⟩ := hwrite image
    rw [← List.foldl_cons] at htemp
    have hs := hstage image
    dsimp only
    rw [List.foldl_append]
    generalize (PruneStep.createTemp::image.map .writeTemp).foldl Volume.step (Volume.of s.disk)=v₁ at hs htemp ⊢
    have hsync : (v₁.step .syncTemp).temp=some ⟨image,true⟩ := by
      rw [Volume.step,htemp]
      rfl
    have hlog : v₁.log.bytes=s.disk.log := congrArg Content.bytes hs.log
    cases hy : io.syncTemp with
    | false => exact ⟨hlog.symm,by simp [htemp]⟩
    | true =>
      cases hr : io.rename with
      | false => exact ⟨hlog.symm,by simp [hsync]⟩
      | true =>
        have hren : ((v₁.step .syncTemp).step .rename).log=⟨image,true⟩ ∧
            ((v₁.step .syncTemp).step .rename).temp=none := by
          rw [Volume.step.eq_def (v₁.step .syncTemp),hsync]
          exact ⟨rfl,rfl⟩
        obtain ⟨hl,ht⟩ := settle_disk io syncsDir ((v₁.step .syncTemp).step .rename)
        rw [hren.1] at hl
        rw [hren.2] at ht
        simp only [Bool.not_true,Bool.false_eq_true,if_false,Bool.or_self,List.foldl_cons]
        rw [Volume.Killed,hl,ht]
        split_ifs <;> exact ⟨rfl,rfl⟩

end Stages

/-- Wherever a prune is cut, opening and recovering succeed, remove a temporary file that
is left, and bring back what the prune has to keep. -/
theorem prune_crash_atomic (io io' : Io) (hio : io'.Opens) (syncsDir : Bool) (s : Store) (nowMs : UInt64)
    (hlog : Mirrors s.disk.log s.ledger.toCaches) (k : Nat) (d : Disk)
    (hcrash : let v := ((s.pruneSteps io syncsDir nowMs).take k).foldl Volume.step (Volume.of s.disk)
      v.Killed d ∨ s.disk.synced=s.disk.log ∧ v.CutOff d) :
    ∃recovery l d',reopen io' d=(.ok (recovery,l),d') ∧ d'.temp=none ∧
      PrunedFrom s.ledger.toCaches nowMs l.toCaches := by
  have hstart : Staging (Volume.of s.disk).log (Volume.of s.disk) := ⟨rfl,rfl⟩
  have hstage := always_take _ _ (prune_stages io syncsDir s nowMs hstart) k
  have hdurable : (Volume.of s.disk).log.durable=true ↔ s.disk.synced=s.disk.log := decide_eq_true_iff
  rw [← hdurable] at hcrash
  cases log_of_crash hstage hcrash with
  | inl hd =>
    obtain ⟨c,hc,hsame⟩ := hlog
    have hreplay : Caches.replayLoop d.log.length d.log Caches.empty=(.ok (),c) := by rw [hd]; exact hc
    exact ⟨_,_,_,reopen_of_replay io' hio d c hreplay,rfl,prunedFrom_of_same hsame nowMs⟩
  | inr hd =>
    have himage : d.log=ledgerFormat.encode ((s.ledger.dropExpired nowMs).imageRecords io)++[] := by
      rw [List.append_nil]
      exact hd
    exact ⟨_,_,_,reopen_of_records io' hio d _ [] himage ledgerFormat.torn_nil,rfl,
      prunedFrom_image io s.ledger.toCaches nowMs⟩

/-- A ledger with a grant that has expired at 100, one that has not, and a revocation. -/
def sampleRecords : List Record := [.commit (sampleId 1) 50,.commit (sampleId 2) 5000,.revoke (samplePk 7) 5]

def samplePruned : Store :=
  let disk : Disk := ⟨ledgerFormat.encode sampleRecords,none,ledgerFormat.encode sampleRecords⟩
  ⟨(Caches.replayAll sampleRecords).recovered disk,disk⟩

/-- The machine stops while the image is being written. -/
theorem prune_crash_atomic_sample :
    ∃recovery l d',reopen Io.good ⟨samplePruned.disk.log,some [1,2,3],[]⟩=(.ok (recovery,l),d') ∧ d'.temp=none ∧
      PrunedFrom samplePruned.ledger.toCaches 100 l.toCaches := by
  have hlog : Mirrors samplePruned.disk.log samplePruned.ledger.toCaches :=
    ⟨_,replayLoop_records _ sampleRecords [] (List.append_nil _).symm ledgerFormat.torn_nil,same_refl _⟩
  have hpath : (((samplePruned.pruneSteps Io.good true 100).take 30).foldl Volume.step
      (Volume.of samplePruned.disk)).log.bytes=samplePruned.disk.log := by decide +kernel
  exact prune_crash_atomic Io.good Io.good Io.good_opens true samplePruned 100 hlog 30
    ⟨samplePruned.disk.log,some [1,2,3],[]⟩ (.inr ⟨rfl,_,.inl rfl,fun _ => hpath.symm⟩)

end Bolina.State
