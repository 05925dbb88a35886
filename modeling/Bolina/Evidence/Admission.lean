import Bolina.Evidence.LedgerEnvelope

namespace Bolina.Evidence

open Transport (VerifyError)
open SlidingWindow

/-- The arguments of an admission. -/
structure Call where
  hash : Hash
  sender : FixedBytes 32
  channel : FixedBytes 32
  seq : UInt64
  parents : List Hash
  deriving DecidableEq

def Call.entry (c : Call) : EnvelopeEntry := ⟨c.hash,c.sender,c.channel,c.seq⟩

def Ledger.answer (L : Ledger) (c : Call) : Except VerifyError Unit × Ledger :=
  L.verifyEnvelopeAdmission c.hash c.sender c.channel c.seq c.parents

def Ledger.held (L : Ledger) (c : Call) : Option Hash := L.findEnvelope c.sender c.channel c.seq

def Ledger.Opens (L : Ledger) (c : Call) : Prop := L.SeqOpen c.sender c.channel c.seq

/-- The store holds another envelope under the sequence number. -/
def Ledger.Diverges (L : Ledger) (c : Call) : Prop := ∃h,L.held c=some h ∧ h≠c.hash

def Ledger.Full (L : Ledger) : Prop := maxEnvelopes ≤ L.envelopes.length

/-- Every way an admission can go. `M` is the ledger with the sequence number taken. -/
inductive Admission (L : Ledger) (c : Call) : Except VerifyError Unit → Ledger → Prop
  | orphan (hp : L.allParentsPresent c.parents=false) : Admission L c (.error .UnknownParents) L
  | stale (hp : L.allParentsPresent c.parents=true) (hs : ¬L.Opens c) : Admission L c (.error .SeqWindowStale) L
  | again (M : Ledger) (hp : L.allParentsPresent c.parents=true) (ha : Advances c.sender c.channel c.seq L M)
      (hs : L.Opens c) (hf : L.held c=some c.hash) :
      Admission L c (.ok ()) { L with seqWindows := M.seqWindows }
  | divergent (M : Ledger) (hp : L.allParentsPresent c.parents=true) (ha : Advances c.sender c.channel c.seq L M)
      (hs : L.Opens c) (hd : L.Diverges c) :
      Admission L c (.error .Equivocation) { L with seqWindows := M.seqWindows }
  | full (M : Ledger) (hp : L.allParentsPresent c.parents=true) (ha : Advances c.sender c.channel c.seq L M)
      (hs : L.Opens c) (hf : L.held c=none) (hl : L.Full) :
      Admission L c (.error .Equivocation)
        { L with
          seqWindows := M.seqWindows
          insertsTotal := L.insertsTotal+1
          storefullTotal := L.storefullTotal+1 }
  | stored (M : Ledger) (hp : L.allParentsPresent c.parents=true) (ha : Advances c.sender c.channel c.seq L M)
      (hs : L.Opens c) (hf : L.held c=none) (hl : ¬L.Full) :
      Admission L c (.ok ())
        { L with
          envelopes := L.envelopes++[c.entry]
          seqWindows := M.seqWindows
          insertsTotal := L.insertsTotal+1 }

theorem admission (L : Ledger) (c : Call) : Admission L c (L.answer c).1 (L.answer c).2 := by
  rw [Ledger.answer,Ledger.verifyEnvelopeAdmission]
  cases hp : L.allParentsPresent c.parents with
  | false =>
    rw [if_pos rfl]
    exact .orphan hp
  | true =>
    rw [if_neg (by decide)]
    by_cases hs : L.Opens c
    · obtain ⟨M,hc,ha⟩ := checkSeq_of_open c.sender c.channel c.seq L hs
      rw [ha.rest] at hc
      simp only [hc,Ledger.insertEnvelope]
      cases hf : L.envelopes.find? (EnvelopeEntry.isFor c.sender c.channel c.seq) with
      | some e =>
        have hheld : L.held c=some e.hash := by rw [Ledger.held,Ledger.findEnvelope,hf]; rfl
        by_cases he : e.hash=c.hash
        · simp only [if_pos he]
          exact .again M hp ha hs (by rw [hheld,he])
        · simp only [if_neg he]
          exact .divergent M hp ha hs ⟨e.hash,hheld,he⟩
      | none =>
        have hheld : L.held c=none := by rw [Ledger.held,Ledger.findEnvelope,hf]; rfl
        by_cases hl : L.Full
        · have hl' : maxEnvelopes ≤ L.envelopes.length := hl
          simp only [if_pos hl']
          exact .full M hp ha hs hheld hl
        · have hl' : ¬maxEnvelopes ≤ L.envelopes.length := hl
          simp only [if_neg hl']
          exact .stored M hp ha hs hheld hl
    · obtain ⟨e,he⟩ := checkSeq_of_shut c.sender c.channel c.seq L hs
      rw [he]
      have hr : seqRefusal e=.SeqWindowStale := by cases e <;> rfl
      simp only [hr]
      exact .stale hp hs

/-- A refusal gives everything back: nothing is taken or stored, so over any store that
would have let the same envelope in before, it is let in afterwards. -/
structure GivesBack (L : Ledger) (c : Call) : Prop where
  windows : (L.answer c).2.seqWindows=L.seqWindows
  store : (L.answer c).2.envelopes=L.envelopes
  retry : ∀envelopes,({ L with envelopes }.answer c).1=.ok () →
    ({ (L.answer c).2 with envelopes }.answer c).1=.ok ()

def AtomicOnError (L : Ledger) (c : Call) : Prop := ∀e,(L.answer c).1=.error e → GivesBack L c

/-- The sequence number is taken for an entry that the store then refuses. -/
def Wasted (L : Ledger) (c : Call) : Prop :=
  L.allParentsPresent c.parents=true ∧ L.Opens c ∧ (L.Diverges c ∨ (L.held c=none ∧ L.Full))

theorem gives_back (L : Ledger) (c : Call) (h : ¬Wasted L c) : AtomicOnError L c := by
  have hback : (L.answer c).2=L → AtomicOnError L c := fun h _ _ =>
    ⟨by rw [h],by rw [h],fun envelopes hok => by
      rw [h]
      exact hok⟩
  have ha := admission L c
  generalize hr : (L.answer c).1=res at ha
  generalize (L.answer c).2=L' at ha hback
  cases ha with
  | orphan hp => exact hback rfl
  | stale hp hs => exact hback rfl
  | again M hp ha hs hf =>
    intro e he
    rw [hr] at he
    cases he
  | divergent M hp ha hs hd => exact absurd ⟨hp,hs,Or.inl hd⟩ h
  | full M hp ha hs hf hl => exact absurd ⟨hp,hs,Or.inr ⟨hf,hl⟩⟩ h
  | stored M hp ha hs hf hl =>
    intro e he
    rw [hr] at he
    cases he

theorem wasted_keeps (L : Ledger) (c : Call) (h : Wasted L c) :
    (L.answer c).1=.error .Equivocation ∧ (L.answer c).2.seqWindows≠L.seqWindows := by
  have ha := admission L c
  generalize (L.answer c).1=res at ha
  generalize (L.answer c).2=L' at ha
  obtain ⟨hpar,hopen,hstore⟩ := h
  cases ha with
  | orphan hp =>
    rw [hp] at hpar
    cases hpar
  | stale hp hs => exact absurd hopen hs
  | again M hp ha hs hf =>
    obtain ⟨h,hh,hne⟩|⟨hn,_⟩ := hstore
    · rw [hf] at hh
      exact absurd (Option.some.inj hh).symm hne
    · rw [hf] at hn
      cases hn
  | divergent M hp ha hs hd => exact ⟨rfl,ha.moved⟩
  | full M hp ha hs hf hl => exact ⟨rfl,ha.moved⟩
  | stored M hp ha hs hf hl =>
    obtain ⟨h,hh,_⟩|⟨_,hfull⟩ := hstore
    · rw [hf] at hh
      cases hh
    · exact absurd hfull hl

/-- An admission that fails changes nothing, unless its sequence number was wasted. -/
theorem admission_atomic_iff (L : Ledger) (c : Call) : AtomicOnError L c ↔ ¬Wasted L c := by
  refine ⟨fun hat hw => ?_,gives_back L c⟩
  obtain ⟨he,hm⟩ := wasted_keeps L c hw
  exact hm (hat _ he).windows

def sampleHash (b : UInt8) : Hash := List.Vector.replicate 32 b

/-- The call with this hash and sequence number of one sender on one channel. -/
def sampleCall (hash : UInt8) (seq : UInt64) : Call := ⟨sampleHash hash,sampleHash 1,sampleHash 2,seq,[]⟩

/-- A store with as many envelopes of one sender as it holds, and its window. -/
def fullLedger : Ledger where
  envelopes := (List.range maxEnvelopes).map (fun i => (sampleCall 0xAA (UInt64.ofNat i)).entry)
  seqWindows := [⟨sampleHash 1,sampleHash 2,Vector.replicate windowWords (0-1),4095,true⟩]
  insertsTotal := maxEnvelopes
  storefullTotal := 0

theorem fullLedger_wastes : Wasted fullLedger (sampleCall 0xBB 4096) := by
  have hnone : fullLedger.held (sampleCall 0xBB 4096)=none := by
    have hf : fullLedger.envelopes.find? (EnvelopeEntry.isFor (sampleHash 1) (sampleHash 2) 4096)=none := by
      simp only [fullLedger,List.find?_eq_none]
      intro e he hfor
      obtain ⟨i,hi,rfl⟩ := List.mem_map.mp he
      obtain ⟨_,_,hseq⟩ := (isFor_iff (sampleHash 1) (sampleHash 2) 4096 _).mp hfor
      have hlt : i < 4096 := List.mem_range.mp hi
      have hval : (UInt64.ofNat i).toNat=4096 := congrArg UInt64.toNat hseq
      rw [UInt64.toNat_ofNat',Nat.mod_eq_of_lt (by omega)] at hval
      exact absurd hval hlt.ne
    rw [Ledger.held,Ledger.findEnvelope]
    exact congrArg _ hf
  have hopen : fullLedger.Opens (sampleCall 0xBB 4096) :=
    Or.inl ⟨⟨Vector.replicate windowWords (0-1),4095,true⟩,by decide +kernel,by decide +kernel⟩
  have hfull : fullLedger.Full := by
    rw [Ledger.Full,fullLedger,List.length_map,List.length_range]
  exact ⟨rfl,hopen,Or.inr ⟨hnone,hfull⟩⟩

theorem full_store_not_atomic : ¬AtomicOnError fullLedger (sampleCall 0xBB 4096) := by
  intro hat
  obtain ⟨he,hm⟩ := wasted_keeps fullLedger (sampleCall 0xBB 4096) fullLedger_wastes
  exact hm (hat .Equivocation he).windows

/-- The ledger after a run of admissions. -/
def Ledger.run (cs : List Call) : Ledger := cs.foldl (fun L c => (L.answer c).2) Ledger.new

theorem run_concat (cs : List Call) (c : Call) :
    Ledger.run (cs++[c])=((Ledger.run cs).answer c).2 := by
  rw [Ledger.run,List.foldl_append]
  rfl

/-- Every stored envelope has a window that has seen its sequence number. -/
structure Tracked (L : Ledger) : Prop where
  known : ∀e∈L.envelopes,∃r,L.windowOf e.sender e.channel=some r
  follows : ∀sender channel r,L.windowOf sender channel=some r → ∃a,Follows r a ∧
    ∀e∈L.envelopes,e.sender=sender → e.channel=channel → e.seq.toNat∈a.seen

section Step

variable {L M : Ledger} {c : Call}

/-- The number that is taken is seen from then on, and what was seen stays so. -/
theorem Tracked.advances (h : Tracked L) (ha : Advances c.sender c.channel c.seq L M) (hs : L.Opens c) :
    ∃r a,M.windowOf c.sender c.channel=some r ∧ Follows r a ∧ c.seq.toNat∈a.seen ∧
      ∀e∈L.envelopes,e.sender=c.sender → e.channel=c.channel → e.seq.toNat∈a.seen := by
  obtain ⟨r,hr,hrv⟩ := ha.own
  cases hw : L.windowOf c.sender c.channel with
  | some r₀ =>
    obtain ⟨a,hf,hseen⟩ := h.follows _ _ r₀ hw
    have ht : (r₀.check c.seq).1=true := by
      obtain ⟨r₁,hr₁,ht⟩|⟨hn,_⟩ := hs
      · rw [hw] at hr₁
        cases hr₁
        exact ht
      · rw [hw] at hn
        cases hn
    obtain ⟨hv,hf'⟩ := hf.check c.seq
    have hfresh : a.Fresh windowBits c.seq.toNat := by
      rw [ht] at hv
      exact of_decide_eq_true hv.symm
    rw [hw] at hrv
    refine ⟨r,a.step windowBits c.seq.toNat,hr,?_,?_,fun e he h1 h2 => Window.seen_step (hseen e he h1 h2)⟩
    · rw [hrv]
      exact hf'
    · rw [Window.step_of_fresh hfresh]
      exact Finset.mem_insert_self _ _
  | none =>
    rw [hw] at hrv
    refine ⟨r,Window.first c.seq.toNat,hr,?_,?_,?_⟩
    · rw [hrv]
      exact (follows_first c.seq).2
    · exact Finset.mem_singleton_self _
    · intro e he h1 h2
      obtain ⟨r₁,hr₁⟩ := h.known e he
      rw [h1,h2,hw] at hr₁
      cases hr₁

theorem Tracked.moves (h : Tracked L) (ha : Advances c.sender c.channel c.seq L M) (hs : L.Opens c)
    (L' : Ledger) (hw : L'.seqWindows=M.seqWindows)
    (he : ∀e∈L'.envelopes,e∈L.envelopes ∨ e=c.entry) : Tracked L' := by
  have hwin : ∀sender channel,L'.windowOf sender channel=M.windowOf sender channel := by
    intro sender channel
    rw [Ledger.windowOf,Ledger.windowOf,hw]
  obtain ⟨r,a,hr,hf,hc,hseen⟩ := h.advances ha hs
  have hown : ∀e∈L'.envelopes,e.sender=c.sender → e.channel=c.channel → e.seq.toNat∈a.seen := by
    intro e hm h1 h2
    cases he e hm with
    | inl hold => exact hseen e hold h1 h2
    | inr hnew =>
      rw [hnew]
      exact hc
  constructor
  · intro e hm
    rw [hwin]
    by_cases hk : e.sender=c.sender ∧ e.channel=c.channel
    · rw [hk.1,hk.2]
      exact ⟨r,hr⟩
    · rw [ha.others _ _ hk]
      cases he e hm with
      | inl hold => exact h.known e hold
      | inr hnew => exact absurd ⟨by rw [hnew]; rfl,by rw [hnew]; rfl⟩ hk
  · intro sender channel r' hr'
    rw [hwin] at hr'
    by_cases hk : sender=c.sender ∧ channel=c.channel
    · rw [hk.1,hk.2,hr] at hr'
      cases hr'
      rw [hk.1,hk.2]
      exact ⟨a,hf,hown⟩
    · rw [ha.others _ _ hk] at hr'
      obtain ⟨a',hf',hs'⟩ := h.follows sender channel r' hr'
      refine ⟨a',hf',fun e hm h1 h2 => ?_⟩
      cases he e hm with
      | inl hold => exact hs' e hold h1 h2
      | inr hnew =>
        rw [hnew] at h1 h2
        exact absurd ⟨h1.symm,h2.symm⟩ hk

theorem Tracked.answer (h : Tracked L) (c : Call) : Tracked (L.answer c).2 := by
  have ha := admission L c
  generalize (L.answer c).1=res at ha
  generalize (L.answer c).2=L' at ha ⊢
  cases ha with
  | orphan hp => exact h
  | stale hp hs => exact h
  | again M hp ha hs hf => exact h.moves ha hs _ rfl (fun e he => Or.inl he)
  | divergent M hp ha hs hd => exact h.moves ha hs _ rfl (fun e he => Or.inl he)
  | full M hp ha hs hf hl => exact h.moves ha hs _ rfl (fun e he => Or.inl he)
  | stored M hp ha hs hf hl =>
    refine h.moves ha hs _ rfl (fun e he => ?_)
    simpa using he

/-- A stored sequence number is never taken again. -/
theorem Tracked.shut (h : Tracked L) (hh : L.held c≠none) : ¬L.Opens c := by
  obtain ⟨v,hv⟩ := Option.ne_none_iff_exists'.mp hh
  rw [Ledger.held,Ledger.findEnvelope,Option.map_eq_some_iff] at hv
  obtain ⟨e,hfind,_⟩ := hv
  obtain ⟨h1,h2,h3⟩ := (isFor_iff _ _ _ e).mp (List.find?_some hfind)
  have hm := List.mem_of_find?_eq_some hfind
  obtain ⟨r,hr⟩ := h.known e hm
  rw [h1,h2] at hr
  obtain ⟨a,hf,hseen⟩ := h.follows _ _ r hr
  have hnot : ¬a.Fresh windowBits c.seq.toNat := by
    rw [← h3]
    exact Window.not_fresh_of_seen (hseen e hm h1 h2)
  intro hw
  obtain ⟨r',hr',ht⟩|⟨hn,_⟩ := hw
  · rw [hr] at hr'
    cases hr'
    rw [(hf.check c.seq).1,decide_eq_true_iff] at ht
    exact hnot ht
  · rw [hr] at hn
    cases hn

end Step

theorem run_tracked (cs : List Call) : Tracked (Ledger.run cs) := by
  induction cs using List.reverseRecOn with
  | nil => exact ⟨fun e he => (List.not_mem_nil he).elim,fun sender channel r hr => by cases hr⟩
  | append_singleton cs c ih =>
    rw [run_concat]
    exact ih.answer c

/-- The answer says equivocation exactly when the envelope equivocates. -/
def EquivocationExact (L : Ledger) (c : Call) : Prop := (L.answer c).1=.error .Equivocation ↔ L.Diverges c

theorem equivocation_exact_iff (cs : List Call) (c : Call)
    (hp : (Ledger.run cs).allParentsPresent c.parents=true) :
    EquivocationExact (Ledger.run cs) c ↔
      ¬(Ledger.run cs).Diverges c ∧ ¬((Ledger.run cs).Full ∧ (Ledger.run cs).Opens c) := by
  have ht := run_tracked cs
  generalize Ledger.run cs=L at ht hp ⊢
  have hdiv : L.Diverges c → ¬L.Opens c := by
    intro hw
    obtain ⟨h,hh,_⟩ := hw
    apply ht.shut
    rw [hh]
    exact Option.some_ne_none h
  have ha := admission L c
  rw [EquivocationExact]
  generalize (L.answer c).1=res at ha ⊢
  generalize (L.answer c).2=L' at ha
  cases ha with
  | orphan hp' =>
    rw [hp] at hp'
    cases hp'
  | stale _ hs =>
    constructor
    · intro h
      refine ⟨fun hd => ?_,fun hf => hs hf.2⟩
      cases h.mpr hd
    · intro hw
      obtain ⟨hd,_⟩ := hw
      exact ⟨fun h => (by cases h),fun h => absurd h hd⟩
  | again M _ ha hs hf =>
    refine absurd hs (ht.shut ?_)
    rw [hf]
    exact Option.some_ne_none _
  | divergent M _ ha hs hd => exact absurd hs (hdiv hd)
  | full M _ ha hs hf hl =>
    constructor
    · intro h
      obtain ⟨h',hh,_⟩ := h.mp rfl
      rw [hf] at hh
      cases hh
    · intro h
      exact absurd ⟨hl,hs⟩ h.2
  | stored M _ ha hs hf hl =>
    have hd : ¬L.Diverges c := fun hd => hdiv hd hs
    exact iff_of_true ⟨fun h => (by cases h),fun h => absurd h hd⟩ ⟨hd,fun h => hl h.1⟩

/-- The next envelope of the sender: its parent is the first one. -/
def childCall : Call := { sampleCall 0xBB 8 with parents := [sampleHash 0xAA] }

theorem equivocation_exact_iff_first :
    (Ledger.run [sampleCall 0xAA 7]).envelopes=[(sampleCall 0xAA 7).entry] ∧
      (EquivocationExact (Ledger.run [sampleCall 0xAA 7]) childCall ↔
        ¬(Ledger.run [sampleCall 0xAA 7]).Diverges childCall ∧
          ¬((Ledger.run [sampleCall 0xAA 7]).Full ∧ (Ledger.run [sampleCall 0xAA 7]).Opens childCall)) :=
  ⟨by decide +kernel,equivocation_exact_iff [sampleCall 0xAA 7] childCall (by decide +kernel)⟩

/-- Two envelopes under one sequence number: the second is answered as stale. -/
theorem divergence_answered_stale :
    (Ledger.run [sampleCall 0xAA 7]).allParentsPresent (sampleCall 0xBB 7).parents=true ∧
      ¬EquivocationExact (Ledger.run [sampleCall 0xAA 7]) (sampleCall 0xBB 7) := by
  refine ⟨rfl,fun h => ?_⟩
  have hstale : ((Ledger.run [sampleCall 0xAA 7]).answer (sampleCall 0xBB 7)).1=.error .SeqWindowStale := by
    decide +kernel
  have hd : (Ledger.run [sampleCall 0xAA 7]).Diverges (sampleCall 0xBB 7) :=
    ⟨sampleHash 0xAA,by decide +kernel,by decide +kernel⟩
  rw [EquivocationExact,hstale] at h
  cases h.mpr hd

end Bolina.Evidence
