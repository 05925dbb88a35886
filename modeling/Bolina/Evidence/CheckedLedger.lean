import Bolina.Evidence.LedgerEnvelope
import Bolina.Framework.Panic

namespace Bolina.Checked

open Panic
open Transport (VerifyError)
open Evidence (Words ReplayWindow Hash LedgerError EnvelopeEntry SeqWindow windowBits windowWords maxEnvelopes
  maxSeqWindows seqRefusal insertRefusal word checkFirst)

section Window

def wordAt (win : Words) (i : Nat) : Option UInt64 := index win.toList i

def putWord (win : Words) (i : Nat) (v : UInt64) : Option Words :=
  if i < windowWords then some (win.setIfInBounds i v) else none

def movedWord (win : Words) (wordShift : Nat) (bitShift : UInt64) (w : Nat) : Option UInt64 := do
  if wordShift ≤ w then shl64 (← wordAt win (← sub w wordShift)) bitShift else return 0

/-- The word that moves up, and the bits that the word below it carries over. -/
def shiftedWord (win : Words) (wordShift : Nat) (bitShift : UInt64) (w : Nat) : Option UInt64 := do
  if bitShift=0 then
    if wordShift ≤ w then wordAt win (← sub w wordShift) else return 0
  else
    let v ← movedWord win wordShift bitShift w
    if (← add wordShift 1) ≤ w then
      let below ← wordAt win (← sub (← sub w wordShift) 1)
      return v|||(← shr64 below (← sub64 64 bitShift))
    else return v

def shiftLoop (wordShift : Nat) (bitShift : UInt64) : Nat → Words → Option Words
  | 0,win => some win
  | w+1,win => do shiftLoop wordShift bitShift w (← putWord win w (← shiftedWord win wordShift bitShift w))

def shiftLeft (win : Words) (shift : UInt64) : Option Words :=
  if UInt64.ofNat windowBits ≤ shift then some (Vector.replicate windowWords 0)
  else shiftLoop (shift/64).toNat (shift%64) windowWords win

def setBit (win : Words) (w : Nat) (mask : UInt64) : Option Words := do putWord win w ((← wordAt win w)|||mask)

def replayCheck (r : ReplayWindow) (counter : UInt64) : Option (Bool × ReplayWindow) := do
  if r.initialized=false then
    let window ← setBit r.window 0 1
    return (true,{ r with initialized := true,largest := counter,window })
  else if r.largest < counter then
    let shift ← sub64 counter r.largest
    let window ← setBit (← shiftLeft r.window shift) 0 1
    return (true,{ r with window,largest := counter })
  else
    let diff ← sub64 r.largest counter
    if UInt64.ofNat windowBits ≤ diff then return (false,r)
    else
      let w := (diff/64).toNat
      let mask ← shl64 1 (diff%64)
      if (← wordAt r.window w)&&&mask≠0 then return (false,r)
      else
        let window ← setBit r.window w mask
        return (true,{ r with window })

end Window

section Ledger

variable (L : Evidence.Ledger)

def checkSeq (sender channel : FixedBytes 32) (seq : UInt64) : Option (Except LedgerError Unit × Evidence.Ledger) := do
  match L.seqWindows.findIdx? (SeqWindow.isFor sender channel) with
  | some i =>
    let w ← index L.seqWindows i
    let (fresh,replay) ← replayCheck w.replay seq
    let seqWindows ← setAt L.seqWindows i { w with replay }
    if fresh then return (.ok (),{ L with seqWindows }) else return (.error .WindowStale,{ L with seqWindows })
  | none =>
    if maxSeqWindows ≤ L.seqWindows.length then return (.error .SeqWindowsFull,L)
    else
      let (_,replay) ← replayCheck ReplayWindow.new seq
      return (.ok (),{ L with seqWindows := L.seqWindows++[⟨sender,channel,replay⟩] })

def insertEnvelope (entry : EnvelopeEntry) : Option (Except LedgerError Unit × Evidence.Ledger) := do
  match L.envelopes.find? (EnvelopeEntry.isFor entry.sender entry.channel entry.seq) with
  | some existing => if existing.hash=entry.hash then return (.ok (),L) else return (.error .Divergence,L)
  | none =>
    if maxEnvelopes ≤ L.envelopes.length then
      let insertsTotal ← add L.insertsTotal 1
      let storefullTotal ← add L.storefullTotal 1
      return (.error .StoreFull,{ L with insertsTotal,storefullTotal })
    else
      let insertsTotal ← add L.insertsTotal 1
      return (.ok (),{ L with envelopes := L.envelopes++[entry],insertsTotal })

def verifyEnvelopeAdmission (hash : Hash) (sender channel : FixedBytes 32) (seq : UInt64) (parents : List Hash) :
    Option (Except VerifyError Unit × Evidence.Ledger) := do
  if L.allParentsPresent parents=false then return (.error .UnknownParents,L)
  else
    match ← checkSeq L sender channel seq with
    | (.error e,L') => return (.error (seqRefusal e),L')
    | (.ok _,L') =>
      match ← insertEnvelope L' ⟨hash,sender,channel,seq⟩ with
      | (.error e,L'') => return (.error (insertRefusal e),L'')
      | (.ok _,L'') => return (.ok (),L'')

end Ledger

section Window

variable (win : Words)

theorem wordAt_eq {i : Nat} (h : i < windowWords) : wordAt win i=some (word win i) := by
  have hl : win.toList.length=windowWords := win.length_toList
  rw [wordAt,index_eq (by rw [hl]; exact h),word,Vector.getElem?_eq_getElem h]
  rfl

theorem putWord_eq {i : Nat} (h : i < windowWords) (v : UInt64) : putWord win i v=some (win.setIfInBounds i v) := if_pos h

/-- A shift by less than a word, and what is left of the word. -/
theorem shiftedWord_eq {wordShift : Nat} (hs : wordShift+1 < wordLimit) {bitShift : UInt64} (hb : bitShift < 64)
    {w : Nat} (hw : w < windowWords) :
    shiftedWord win wordShift bitShift w=some (Evidence.shiftedWord win wordShift bitShift w) := by
  have hat : wordAt win (w-wordShift)=some (word win (w-wordShift)) := wordAt_eq win (by omega)
  have hbelow : wordAt win (w-wordShift-1)=some (word win (w-wordShift-1)) := wordAt_eq win (by omega)
  rw [shiftedWord,Evidence.shiftedWord]
  by_cases hz : bitShift=0
  · rw [if_pos hz,if_pos hz]
    by_cases hle : wordShift ≤ w
    · rw [if_pos hle,if_pos hle,sub_eq hle]
      exact hat
    · rw [if_neg hle,if_neg hle]
      rfl
  have hback : 64-bitShift < 64 := by
    have hpos : bitShift.toNat≠0 := fun h => hz (UInt64.toNat_inj.mp h)
    rw [UInt64.lt_iff_toNat_lt,UInt64.toNat_sub_of_le _ _ (UInt64.le_of_lt hb)]
    exact Nat.sub_lt (by decide) (Nat.pos_of_ne_zero hpos)
  have hmoved : movedWord win wordShift bitShift w=
      some (if wordShift ≤ w then word win (w-wordShift)<<<bitShift else 0) := by
    rw [movedWord]
    by_cases hle : wordShift ≤ w
    · rw [if_pos hle,if_pos hle,sub_eq hle]
      simp only [Option.bind_eq_bind,Option.bind_some,hat]
      exact if_pos hb
    · rw [if_neg hle,if_neg hle]
      rfl
  rw [if_neg hz,if_neg hz,hmoved,add_eq hs]
  simp only [Option.bind_eq_bind,Option.bind_some]
  by_cases hnext : wordShift+1 ≤ w
  · rw [if_pos hnext,if_pos hnext,sub_eq (Nat.le_of_succ_le hnext)]
    simp only [Option.bind_some]
    rw [sub_eq (Nat.le_sub_of_add_le' hnext)]
    simp only [Option.bind_some,hbelow]
    rw [sub64,if_pos (UInt64.le_of_lt hb)]
    simp only [Option.bind_some]
    rw [shr64,if_pos hback]
    rfl
  · rw [if_neg hnext,if_neg hnext]
    rfl

theorem shiftLoop_eq {wordShift : Nat} (hs : wordShift+1 < wordLimit) {bitShift : UInt64} (hb : bitShift < 64) (n : Nat)
    (hn : n ≤ windowWords) : shiftLoop wordShift bitShift n win=some (Evidence.shiftLoop wordShift bitShift n win) := by
  induction n generalizing win with
  | zero => rfl
  | succ n ih =>
    rw [shiftLoop,Evidence.shiftLoop,shiftedWord_eq win hs hb hn]
    simp only [Option.bind_eq_bind,Option.bind_some]
    rw [putWord_eq win hn]
    exact ih _ (Nat.le_of_succ_le hn)

theorem mod_word (v : UInt64) : v%64 < 64 := by
  rw [UInt64.lt_iff_toNat_lt,UInt64.toNat_mod]
  exact Nat.mod_lt _ (by decide)

theorem shiftLeft_eq (shift : UInt64) : shiftLeft win shift=some (Evidence.shiftLeft win shift) := by
  rw [shiftLeft,Evidence.shiftLeft]
  split
  · rfl
  · have hs : (shift/64).toNat+1 < wordLimit := by
      have hlt := shift.toNat_lt
      have hd : (64 : UInt64).toNat=64 := rfl
      rw [wordLimit,UInt64.toNat_div,hd]
      omega
    exact shiftLoop_eq win hs (mod_word shift) windowWords le_rfl

theorem setBit_eq {w : Nat} (hw : w < windowWords) (mask : UInt64) :
    setBit win w mask=some (Evidence.setBit win w mask) := by
  rw [setBit,wordAt_eq win hw]
  exact putWord_eq win hw _

/-- A window takes any counter without leaving its sixteen words. -/
theorem replayCheck_eq (r : ReplayWindow) (counter : UInt64) : replayCheck r counter=some (r.check counter) := by
  rw [replayCheck,ReplayWindow.check]
  have hpos : 0 < windowWords := by decide
  by_cases hi : r.initialized=false
  · rw [if_pos hi,if_pos hi,setBit_eq r.window hpos]
    rfl
  rw [if_neg hi,if_neg hi]
  by_cases hlt : r.largest < counter
  · rw [if_pos hlt,if_pos hlt,sub64,if_pos (UInt64.le_of_lt hlt)]
    simp only [Option.bind_eq_bind,Option.bind_some,shiftLeft_eq]
    rw [setBit_eq _ hpos]
    rfl
  rw [if_neg hlt,if_neg hlt,sub64,if_pos (UInt64.not_lt.mp hlt)]
  simp only [Option.bind_eq_bind,Option.bind_some]
  by_cases hwide : UInt64.ofNat windowBits ≤ r.largest-counter
  · rw [if_pos hwide,if_pos hwide]
    rfl
  have hd : (r.largest-counter).toNat < windowBits := UInt64.lt_iff_toNat_lt.mp (UInt64.not_le.mp hwide)
  have hw : ((r.largest-counter)/64).toNat < windowWords := by
    rw [UInt64.toNat_div]
    exact Nat.div_lt_of_lt_mul hd
  rw [if_neg hwide,if_neg hwide,shl64,if_pos (mod_word _),wordAt_eq _ hw]
  simp only [Option.bind_some]
  rw [setBit_eq _ hw]
  split <;> rfl

end Window

section Ledger

variable {L : Evidence.Ledger}

/-- The first window of a sender and channel is the one at the index that is found. -/
theorem checkFirst_index (sender channel : FixedBytes 32) (seq : UInt64) (ws : List SeqWindow) :
    (ws.findIdx? (SeqWindow.isFor sender channel)=none → checkFirst sender channel seq ws=none) ∧
    ∀i,ws.findIdx? (SeqWindow.isFor sender channel)=some i → ∃w,ws[i]?=some w ∧
      checkFirst sender channel seq ws=
        some ((w.replay.check seq).1,ws.set i { w with replay := (w.replay.check seq).2 }) := by
  induction ws with
  | nil => exact ⟨fun _ => rfl,fun i h => (by cases h)⟩
  | cons w ws ih =>
    rw [List.findIdx?_cons,checkFirst]
    by_cases hw : w.isFor sender channel=true
    · rw [if_pos hw,if_pos hw]
      refine ⟨fun h => (by cases h),fun i h => ?_⟩
      cases h
      exact ⟨w,rfl,rfl⟩
    · rw [if_neg hw,if_neg hw]
      refine ⟨fun h => ?_,fun i h => ?_⟩
      · rw [ih.1 (Option.map_eq_none_iff.mp h)]
        rfl
      · obtain ⟨j,hj,rfl⟩ := Option.map_eq_some_iff.mp h
        obtain ⟨v,hv,hc⟩ := ih.2 j hj
        refine ⟨v,hv,?_⟩
        rw [hc]
        rfl

theorem checkSeq_eq (sender channel : FixedBytes 32) (seq : UInt64) :
    checkSeq L sender channel seq=some (L.checkSeq sender channel seq) := by
  obtain ⟨hnone,hsome⟩ := checkFirst_index sender channel seq L.seqWindows
  rw [checkSeq,Evidence.Ledger.checkSeq]
  cases hi : L.seqWindows.findIdx? (SeqWindow.isFor sender channel) with
  | none =>
    rw [hnone hi]
    dsimp only
    by_cases hfull : maxSeqWindows ≤ L.seqWindows.length
    · rw [if_pos hfull,if_pos hfull]
      rfl
    · rw [if_neg hfull,if_neg hfull,replayCheck_eq]
      rfl
  | some i =>
    obtain ⟨w,hw,hc⟩ := hsome i hi
    obtain ⟨hlt,-⟩ := List.getElem?_eq_some_iff.mp hw
    rw [hc]
    dsimp only
    rw [index,hw]
    simp only [Option.bind_eq_bind,Option.bind_some,replayCheck_eq]
    rw [setAt,if_pos hlt]
    simp only [Option.bind_some]
    cases (w.replay.check seq).1 <;> rfl

theorem insertEnvelope_eq (entry : EnvelopeEntry) (hi : L.insertsTotal+1 < wordLimit)
    (hs : L.storefullTotal+1 < wordLimit) : insertEnvelope L entry=some (L.insertEnvelope entry) := by
  rw [insertEnvelope,Evidence.Ledger.insertEnvelope,add_eq hi,add_eq hs]
  cases L.envelopes.find? (EnvelopeEntry.isFor entry.sender entry.channel entry.seq) with
  | some existing =>
    dsimp only
    split <;> rfl
  | none =>
    dsimp only
    split <;> rfl

theorem checkSeq_totals (L : Evidence.Ledger) (sender channel : FixedBytes 32) (seq : UInt64) :
    (L.checkSeq sender channel seq).2.insertsTotal=L.insertsTotal ∧
      (L.checkSeq sender channel seq).2.storefullTotal=L.storefullTotal := by
  rw [Evidence.Ledger.checkSeq]
  cases checkFirst sender channel seq L.seqWindows with
  | none =>
    dsimp only
    split <;> exact ⟨rfl,rfl⟩
  | some r =>
    obtain ⟨fresh,ws⟩ := r
    cases fresh <;> exact ⟨rfl,rfl⟩

theorem verifyEnvelopeAdmission_eq (hash : Hash) (sender channel : FixedBytes 32) (seq : UInt64) (parents : List Hash)
    (hi : L.insertsTotal+1 < wordLimit) (hs : L.storefullTotal+1 < wordLimit) :
    verifyEnvelopeAdmission L hash sender channel seq parents=
      some (L.verifyEnvelopeAdmission hash sender channel seq parents) := by
  rw [verifyEnvelopeAdmission,Evidence.Ledger.verifyEnvelopeAdmission]
  by_cases hp : L.allParentsPresent parents=false
  · rw [if_pos hp,if_pos hp]
    rfl
  rw [if_neg hp,if_neg hp,checkSeq_eq]
  obtain ⟨hti,hts⟩ := checkSeq_totals L sender channel seq
  simp only [Option.bind_eq_bind,Option.bind_some]
  cases hc : L.checkSeq sender channel seq with
  | mk res L' =>
    rw [hc] at hti hts
    cases res with
    | error e => rfl
    | ok _ =>
      dsimp only at hti hts ⊢
      rw [insertEnvelope_eq _ (hti ▸ hi) (hts ▸ hs)]
      simp only [Option.bind_some]
      cases L'.insertEnvelope ⟨hash,sender,channel,seq⟩ with
      | mk res L'' => cases res <;> rfl

end Ledger

end Bolina.Checked
