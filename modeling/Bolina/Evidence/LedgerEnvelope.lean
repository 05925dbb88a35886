import Bolina.Evidence.Replay
import Bolina.Transport.Verify

namespace Bolina.Evidence

open Transport (VerifyError)
open SlidingWindow

def maxEnvelopes : Nat := 4096
def maxSeqWindows : Nat := 256

abbrev Hash := FixedBytes 32

inductive LedgerError where
  | StoreFull
  | SeqWindowsFull
  | AnchorsFull
  | RevocationsFull
  | Divergence
  | WindowStale
  deriving DecidableEq,Repr

/-- An accepted envelope, stored by its hash. -/
structure EnvelopeEntry where
  hash : Hash
  sender : FixedBytes 32
  channel : FixedBytes 32
  seq : UInt64
  deriving DecidableEq

structure SeqWindow where
  sender : FixedBytes 32
  channel : FixedBytes 32
  replay : ReplayWindow
  deriving DecidableEq

structure Ledger where
  envelopes : List EnvelopeEntry
  seqWindows : List SeqWindow
  insertsTotal : Nat
  storefullTotal : Nat
  deriving DecidableEq

def Ledger.new : Ledger := ⟨[],[],0,0⟩

def EnvelopeEntry.isFor (sender channel : FixedBytes 32) (seq : UInt64) (e : EnvelopeEntry) : Bool :=
  e.sender==sender && e.channel==channel && e.seq==seq

def SeqWindow.isFor (sender channel : FixedBytes 32) (w : SeqWindow) : Bool :=
  w.sender==sender && w.channel==channel

def Ledger.findEnvelope (L : Ledger) (sender channel : FixedBytes 32) (seq : UInt64) : Option Hash :=
  (L.envelopes.find? (EnvelopeEntry.isFor sender channel seq)).map (fun e => e.hash)

/-- The scan comes first: a stored entry is found again on a full store. -/
def Ledger.insertEnvelope (L : Ledger) (entry : EnvelopeEntry) : Except LedgerError Unit × Ledger :=
  match L.envelopes.find? (EnvelopeEntry.isFor entry.sender entry.channel entry.seq) with
  | some existing => if existing.hash=entry.hash then (.ok (),L) else (.error .Divergence,L)
  | none =>
    if maxEnvelopes ≤ L.envelopes.length then
      (.error .StoreFull,{ L with
        insertsTotal := L.insertsTotal+1
        storefullTotal := L.storefullTotal+1 })
    else
      (.ok (),{ L with
        envelopes := L.envelopes++[entry]
        insertsTotal := L.insertsTotal+1 })

def Ledger.allParentsPresent (L : Ledger) (parents : List Hash) : Bool :=
  parents.all (fun p => L.envelopes.any (fun e => e.hash==p))

/-- The first window of a sender and channel is checked in place; `none` when they have none. -/
def checkFirst (sender channel : FixedBytes 32) (seq : UInt64) : List SeqWindow → Option (Bool × List SeqWindow)
  | [] => none
  | w::ws =>
    if w.isFor sender channel then
      some ((w.replay.check seq).1,{ w with replay := (w.replay.check seq).2 }::ws)
    else (checkFirst sender channel seq ws).map (fun r => (r.1,w::r.2))

def Ledger.checkSeq (L : Ledger) (sender channel : FixedBytes 32) (seq : UInt64) :
    Except LedgerError Unit × Ledger :=
  match checkFirst sender channel seq L.seqWindows with
  | some (false,seqWindows) => (.error .WindowStale,{ L with seqWindows })
  | some (true,seqWindows) => (.ok (),{ L with seqWindows })
  | none =>
    if maxSeqWindows ≤ L.seqWindows.length then (.error .SeqWindowsFull,L)
    else
      (.ok (),{ L with
        seqWindows := L.seqWindows++[⟨sender,channel,(ReplayWindow.new.check seq).2⟩] })

def seqRefusal : LedgerError → VerifyError
  | .WindowStale => .SeqWindowStale
  | .SeqWindowsFull => .SeqWindowStale
  | _ => .SeqWindowStale

def insertRefusal : LedgerError → VerifyError
  | .Divergence => .Equivocation
  | .StoreFull => .Equivocation
  | _ => .Equivocation

/-- Parents before the sequence number before the insert. -/
def Ledger.verifyEnvelopeAdmission (L : Ledger) (hash : Hash) (sender channel : FixedBytes 32) (seq : UInt64)
    (parents : List Hash) : Except VerifyError Unit × Ledger :=
  if L.allParentsPresent parents=false then (.error .UnknownParents,L)
  else
    match L.checkSeq sender channel seq with
    | (.error e,L') => (.error (seqRefusal e),L')
    | (.ok _,L') =>
      match L'.insertEnvelope ⟨hash,sender,channel,seq⟩ with
      | (.error e,L'') => (.error (insertRefusal e),L'')
      | (.ok _,L'') => (.ok (),L'')

/-- The window that a sequence number of this sender on this channel is checked against. -/
def Ledger.windowOf (L : Ledger) (sender channel : FixedBytes 32) : Option ReplayWindow :=
  (L.seqWindows.find? (SeqWindow.isFor sender channel)).map (fun w => w.replay)

/-- The sequence number is taken: by its window, or by a new one there is room for. -/
def Ledger.SeqOpen (L : Ledger) (sender channel : FixedBytes 32) (seq : UInt64) : Prop :=
  (∃r,L.windowOf sender channel=some r ∧ (r.check seq).1=true) ∨
    (L.windowOf sender channel=none ∧ L.seqWindows.length < maxSeqWindows)

theorem isFor_iff (sender channel : FixedBytes 32) (seq : UInt64) (e : EnvelopeEntry) :
    e.isFor sender channel seq=true ↔ e.sender=sender ∧ e.channel=channel ∧ e.seq=seq := by
  simp [EnvelopeEntry.isFor,and_assoc]

theorem window_isFor_iff (sender channel : FixedBytes 32) (w : SeqWindow) :
    w.isFor sender channel=true ↔ w.sender=sender ∧ w.channel=channel := by
  simp [SeqWindow.isFor]

section Seq

variable (sender channel : FixedBytes 32) (seq : UInt64)

theorem checkFirst_none (ws : List SeqWindow) (h : ws.find? (SeqWindow.isFor sender channel)=none) :
    checkFirst sender channel seq ws=none := by
  induction ws with
  | nil => rfl
  | cons w ws ih =>
    rw [List.find?_cons] at h
    cases hw : w.isFor sender channel with
    | true => simp [hw] at h
    | false =>
      simp only [hw] at h
      simp [checkFirst,hw,ih h]

/-- Only the first window of the pair is touched, and what is found in its place is
the window as the check left it. -/
theorem checkFirst_some (ws : List SeqWindow) (w : SeqWindow)
    (h : ws.find? (SeqWindow.isFor sender channel)=some w) :
    ∃ws',checkFirst sender channel seq ws=some ((w.replay.check seq).1,ws') ∧
      ws'.find? (SeqWindow.isFor sender channel)=some { w with replay := (w.replay.check seq).2 } ∧
      (∀sender' channel',¬(sender'=sender ∧ channel'=channel) →
        ws'.find? (SeqWindow.isFor sender' channel')=ws.find? (SeqWindow.isFor sender' channel')) ∧
      (ws'=ws ↔ (w.replay.check seq).1=false) := by
  induction ws with
  | nil => simp at h
  | cons v ws ih =>
    rw [List.find?_cons] at h
    cases hv : v.isFor sender channel with
    | true =>
      simp only [hv,Option.some.injEq] at h
      subst h
      have hkey := (window_isFor_iff sender channel v).mp hv
      have hv' : SeqWindow.isFor sender channel { v with replay := (v.replay.check seq).2 }=true := hv
      refine ⟨{ v with replay := (v.replay.check seq).2 }::ws,by simp [checkFirst,hv],?_,?_,?_⟩
      · rw [List.find?_cons,hv']
      · intro sender' channel' hne
        have hf : v.isFor sender' channel'=false := by
          rw [Bool.eq_false_iff]
          intro ht
          obtain ⟨hs,hc⟩ := (window_isFor_iff sender' channel' v).mp ht
          exact hne ⟨hs.symm.trans hkey.1,hc.symm.trans hkey.2⟩
        have hf' : SeqWindow.isFor sender' channel' { v with replay := (v.replay.check seq).2 }=false := hf
        rw [List.find?_cons,List.find?_cons,hf,hf']
      · rw [← check_changes]
        constructor
        · intro he
          exact congrArg SeqWindow.replay (List.cons.inj he).1
        · intro he
          rw [he]
    | false =>
      simp only [hv] at h
      obtain ⟨ws',hc,hf,ho,he⟩ := ih h
      refine ⟨v::ws',by simp [checkFirst,hv,hc],?_,?_,?_⟩
      · rw [List.find?_cons,hv]
        exact hf
      · intro sender' channel' hne
        rw [List.find?_cons,List.find?_cons,ho sender' channel' hne]
      · rw [← he]
        exact ⟨fun h => (List.cons.inj h).2,fun h => by rw [h]⟩

variable (L : Ledger)

/-- What a taken sequence number does: its window is the window as the check left it,
the others stay, and something has changed. -/
structure Advances (L L' : Ledger) : Prop where
  rest : L'={ L with seqWindows := L'.seqWindows }
  moved : L'.seqWindows≠L.seqWindows
  own : ∃r,L'.windowOf sender channel=some r ∧
    r=(((L.windowOf sender channel).getD ReplayWindow.new).check seq).2
  others : ∀sender' channel',¬(sender'=sender ∧ channel'=channel) →
    L'.windowOf sender' channel'=L.windowOf sender' channel'

theorem checkSeq_of_open (h : L.SeqOpen sender channel seq) :
    ∃L',L.checkSeq sender channel seq=(.ok (),L') ∧ Advances sender channel seq L L' := by
  cases hw : L.seqWindows.find? (SeqWindow.isFor sender channel) with
  | some w =>
    have hwin : L.windowOf sender channel=some w.replay := by rw [Ledger.windowOf,hw]; rfl
    have ht : (w.replay.check seq).1=true := by
      obtain ⟨r,hr,ht⟩|⟨hn,_⟩ := h
      · rw [hwin] at hr
        cases hr
        exact ht
      · rw [hwin] at hn
        cases hn
    obtain ⟨ws',hc,hf,ho,he⟩ := checkFirst_some sender channel seq L.seqWindows w hw
    refine ⟨{ L with seqWindows := ws' },by rw [Ledger.checkSeq,hc,ht],rfl,?_,?_,?_⟩
    · intro hs
      rw [he.mp hs] at ht
      cases ht
    · refine ⟨(w.replay.check seq).2,?_,?_⟩
      · rw [Ledger.windowOf,hf]
        rfl
      · rw [hwin]
        rfl
    · intro sender' channel' hne
      rw [Ledger.windowOf,Ledger.windowOf,ho sender' channel' hne]
  | none =>
    have hwin : L.windowOf sender channel=none := by rw [Ledger.windowOf,hw]; rfl
    have hroom : L.seqWindows.length < maxSeqWindows := by
      obtain ⟨r,hr,_⟩|⟨_,hl⟩ := h
      · rw [hwin] at hr
        cases hr
      · exact hl
    refine ⟨{ L with seqWindows := L.seqWindows++[⟨sender,channel,(ReplayWindow.new.check seq).2⟩] },
      ?_,rfl,?_,?_,?_⟩
    · rw [Ledger.checkSeq,checkFirst_none sender channel seq _ hw]
      simp only [if_neg (Nat.not_le.mpr hroom)]
    · simp
    · refine ⟨(ReplayWindow.new.check seq).2,?_,?_⟩
      · simp [Ledger.windowOf,List.find?_append,hw,SeqWindow.isFor]
      · rw [hwin]
        rfl
    · intro sender' channel' hne
      have hf : SeqWindow.isFor sender' channel' ⟨sender,channel,(ReplayWindow.new.check seq).2⟩=false := by
        rw [Bool.eq_false_iff]
        intro ht
        obtain ⟨hs,hc⟩ := (window_isFor_iff sender' channel' _).mp ht
        exact hne ⟨hs.symm,hc.symm⟩
      simp [Ledger.windowOf,List.find?_append,hf]

theorem checkSeq_of_shut (h : ¬L.SeqOpen sender channel seq) :
    ∃e,L.checkSeq sender channel seq=(.error e,L) := by
  cases hw : L.seqWindows.find? (SeqWindow.isFor sender channel) with
  | some w =>
    have hwin : L.windowOf sender channel=some w.replay := by rw [Ledger.windowOf,hw]; rfl
    have hf : (w.replay.check seq).1=false := by
      rw [Bool.eq_false_iff]
      exact fun ht => h (Or.inl ⟨w.replay,hwin,ht⟩)
    obtain ⟨ws',hc,_,_,he⟩ := checkFirst_some sender channel seq L.seqWindows w hw
    refine ⟨.WindowStale,?_⟩
    rw [Ledger.checkSeq,hc,hf,he.mpr hf]
  | none =>
    have hwin : L.windowOf sender channel=none := by rw [Ledger.windowOf,hw]; rfl
    have hfull : maxSeqWindows ≤ L.seqWindows.length := by
      by_contra hlt
      exact h (Or.inr ⟨hwin,Nat.lt_of_not_le hlt⟩)
    refine ⟨.SeqWindowsFull,?_⟩
    rw [Ledger.checkSeq,checkFirst_none sender channel seq _ hw]
    simp only [if_pos hfull]

end Seq

end Bolina.Evidence
