import Bolina.Transport.ReplayWindow

namespace Bolina.Evidence

open SlidingWindow Transport

def windowBits : Nat := 1024
def wordBits : Nat := 64
abbrev windowWords : Nat := 16

abbrev Words := Vector UInt64 windowWords

/-- The anti-replay window of the evidence ledger. -/
structure ReplayWindow where
  window : Words
  largest : UInt64
  initialized : Bool
  deriving DecidableEq

def ReplayWindow.new : ReplayWindow := ⟨Vector.replicate windowWords 0,0,false⟩

def word (win : Words) (i : Nat) : UInt64 := win[i]?.getD 0

/-- What word `w` becomes: the word it comes from, moved up, and the bits that the
word below it carries over. -/
def shiftedWord (win : Words) (wordShift : Nat) (bitShift : UInt64) (w : Nat) : UInt64 :=
  if bitShift=0 then (if wordShift ≤ w then word win (w-wordShift) else 0)
  else
    let v := if wordShift ≤ w then word win (w-wordShift)<<<bitShift else 0
    if wordShift+1 ≤ w then v|||(word win (w-wordShift-1)>>>(64-bitShift)) else v

/-- The loop writes the words from the last to the first, in place. -/
def shiftLoop (wordShift : Nat) (bitShift : UInt64) : Nat → Words → Words
  | 0,win => win
  | w+1,win => shiftLoop wordShift bitShift w (win.setIfInBounds w (shiftedWord win wordShift bitShift w))

def shiftLeft (win : Words) (shift : UInt64) : Words :=
  if UInt64.ofNat windowBits ≤ shift then Vector.replicate windowWords 0
  else shiftLoop (shift/64).toNat (shift%64) windowWords win

def setBit (win : Words) (w : Nat) (mask : UInt64) : Words := win.setIfInBounds w (word win w|||mask)

/-- True for a fresh counter, which it records; false for one that is taken or stale. -/
def ReplayWindow.check (r : ReplayWindow) (counter : UInt64) : Bool × ReplayWindow :=
  if r.initialized=false then
    (true,{ r with initialized := true,largest := counter,window := setBit r.window 0 1 })
  else if r.largest < counter then
    let shift := counter-r.largest
    (true,{ r with window := setBit (shiftLeft r.window shift) 0 1,largest := counter })
  else
    let diff := r.largest-counter
    if UInt64.ofNat windowBits ≤ diff then (false,r)
    else
      let w := (diff/64).toNat
      let mask := (1 : UInt64)<<<(diff%64)
      if word r.window w&&&mask≠0 then (false,r)
      else (true,{ r with window := setBit r.window w mask })

section Words

variable (win : Words) (i : Nat)

theorem word_set (w : Nat) (v : UInt64) (hi : i < windowWords) :
    word (win.setIfInBounds w v) i=if w=i then v else word win i := by
  simp only [word,Vector.getElem?_setIfInBounds]
  by_cases hw : w=i
  · simp [hw,hi]
  · simp [hw]

theorem word_zero : word (Vector.replicate windowWords 0) i=0 := by
  rw [word,Vector.getElem?_replicate]
  split <;> rfl

theorem shiftedWord_congr (win' : Words) (wordShift w : Nat) (bitShift : UInt64)
    (h : ∀j,j ≤ w → word win j=word win' j) :
    shiftedWord win wordShift bitShift w=shiftedWord win' wordShift bitShift w := by
  rw [shiftedWord,shiftedWord,h (w-wordShift) (Nat.sub_le _ _),
    h (w-wordShift-1) ((Nat.sub_le _ _).trans (Nat.sub_le _ _))]

/-- Writing from the last word down reads no word that was written before. -/
theorem word_shiftLoop (wordShift n : Nat) (bitShift : UInt64) (hn : n ≤ windowWords)
    (hi : i < windowWords) :
    word (shiftLoop wordShift bitShift n win) i=
      if i < n then shiftedWord win wordShift bitShift i else word win i := by
  induction n generalizing win with
  | zero => simp [shiftLoop]
  | succ n ih =>
    rw [shiftLoop,ih _ (by omega)]
    by_cases hlt : i < n
    · rw [if_pos hlt,if_pos (by omega)]
      apply shiftedWord_congr
      intro j hj
      rw [word_set _ _ _ _ (by omega),if_neg (by omega)]
    · rw [if_neg hlt,word_set _ _ _ _ hi]
      by_cases he : n=i
      · rw [if_pos he,if_pos (by omega),he]
      · rw [if_neg he,if_neg (by omega)]

end Words

/-- Bit `i` of the whole window. -/
def bitAt (win : Words) (i : Nat) : Bool := maskBit (word win (i/wordBits)) (i%wordBits)

theorem maskBit_up (m s : UInt64) (hs : s.toNat < 64) (i : Nat) (hi : i < 64) :
    maskBit (m<<<s) i=(decide (s.toNat ≤ i) && maskBit m (i-s.toNat)) := by
  rw [maskBit,UInt64.toNat_shiftLeft,Nat.testBit_mod_two_pow,Nat.mod_eq_of_lt hs,Nat.testBit_shiftLeft]
  simp only [hi,decide_true,Bool.true_and,maskBit]

theorem maskBit_down (m s : UInt64) (hs : s.toNat < 64) (i : Nat) :
    maskBit (m>>>s) i=maskBit m (s.toNat+i) := by
  rw [maskBit,UInt64.toNat_shiftRight,Nat.mod_eq_of_lt hs,Nat.testBit_shiftRight]
  rfl

theorem maskBit_high (m : UInt64) (i : Nat) (hi : 64 ≤ i) : maskBit m i=false := by
  apply Nat.testBit_lt_two_pow
  exact lt_of_lt_of_le m.toNat_lt (Nat.pow_le_pow_right (by decide) hi)

theorem maskBit_or (m n : UInt64) (i : Nat) : maskBit (m|||n) i=(maskBit m i || maskBit n i) := by
  rw [maskBit,UInt64.toNat_or,Nat.testBit_or]
  rfl

@[simp] theorem maskBit_zero (i : Nat) : maskBit 0 i=false := Nat.zero_testBit i

/-- The bits of a word that stay in the word they move to. -/
theorem maskBit_moved (p : Prop) [Decidable p] (m s : UInt64) (hs : s.toNat < 64) (i : Nat) (hi : i < 64) :
    maskBit (if p then m<<<s else 0) i=(decide (p ∧ s.toNat ≤ i) && maskBit m (i-s.toNat)) := by
  by_cases hp : p
  · rw [if_pos hp,maskBit_up m s hs i hi]
    simp [hp]
  · simp [hp]

/-- The bits of a word that are carried over into the next one. -/
theorem maskBit_carried (m s : UInt64) (hs : s.toNat < 64) (h0 : s.toNat≠0) (i : Nat) :
    maskBit (m>>>(64-s)) i=(decide (i < s.toNat) && maskBit m (64-s.toNat+i)) := by
  have hle : s ≤ 64 := UInt64.le_iff_toNat_le.mpr hs.le
  have hsub : (64-s).toNat=64-s.toNat := UInt64.toNat_sub_of_le _ _ hle
  rw [maskBit_down _ _ (by omega),hsub]
  by_cases hlt : i < s.toNat
  · simp [hlt]
  · rw [maskBit_high _ _ (by omega)]
    simp

/-- A bit of the shifted window is the bit that many places below it. -/
theorem bitAt_shiftLoop (win : Words) (shift : UInt64) (i : Nat) (hi : i < windowBits) :
    bitAt (shiftLoop (shift/64).toNat (shift%64) windowWords win) i=
      (decide (shift.toNat ≤ i) && bitAt win (i-shift.toNat)) := by
  have hw : i/wordBits < windowWords := Nat.div_lt_of_lt_mul hi
  have hb : i%wordBits < 64 := Nat.mod_lt _ (by decide)
  have hq : (shift/64).toNat=shift.toNat/64 := UInt64.toNat_div _ _
  have hr : (shift%64).toNat=shift.toNat%64 := UInt64.toNat_mod _ _
  have hlt64 : (shift%64).toNat < 64 := by omega
  rw [bitAt,word_shiftLoop _ _ _ _ _ le_rfl hw,if_pos hw,shiftedWord]
  simp only [bitAt,wordBits,hq] at *
  by_cases hz : shift%64=0
  · have hz' : shift.toNat%64=0 := by rw [← hr,hz]; rfl
    rw [if_pos hz]
    by_cases hle : shift.toNat/64 ≤ i/64
    · have h1 : (i-shift.toNat)/64=i/64-shift.toNat/64 := by omega
      have h2 : (i-shift.toNat)%64=i%64 := by omega
      have h3 : shift.toNat ≤ i := by omega
      rw [if_pos hle,h1,h2,decide_eq_true h3,Bool.true_and]
    · have h3 : ¬shift.toNat ≤ i := by omega
      rw [if_neg hle,decide_eq_false h3,maskBit_zero,Bool.false_and]
  · have hnz : (shift%64).toNat≠0 := fun he => hz (UInt64.toNat_inj.mp he)
    rw [if_neg hz]
    by_cases hle : shift.toNat/64+1 ≤ i/64
    · rw [if_pos hle,maskBit_or,maskBit_moved _ _ _ hlt64 _ hb,maskBit_carried _ _ hlt64 hnz,hr]
      by_cases hlt : i%64 < shift.toNat%64
      · have h1 : (i-shift.toNat)/64=i/64-shift.toNat/64-1 := by omega
        have h2 : (i-shift.toNat)%64=64-shift.toNat%64+i%64 := by omega
        have h3 : shift.toNat ≤ i := by omega
        have h4 : ¬shift.toNat%64 ≤ i%64 := by omega
        simp [h1,h2,h3,h4,hlt]
      · have h1 : (i-shift.toNat)/64=i/64-shift.toNat/64 := by omega
        have h2 : (i-shift.toNat)%64=i%64-shift.toNat%64 := by omega
        have h3 : shift.toNat ≤ i := by omega
        have h4 : shift.toNat/64 ≤ i/64 ∧ shift.toNat%64 ≤ i%64 := by omega
        simp [h1,h2,h3,h4,hlt]
    · rw [if_neg hle,maskBit_moved _ _ _ hlt64 _ hb,hr]
      by_cases h4 : shift.toNat/64 ≤ i/64 ∧ shift.toNat%64 ≤ i%64
      · have h1 : (i-shift.toNat)/64=i/64-shift.toNat/64 := by omega
        have h2 : (i-shift.toNat)%64=i%64-shift.toNat%64 := by omega
        have h3 : shift.toNat ≤ i := by omega
        simp [h1,h2,h3,h4]
      · have h3 : ¬shift.toNat ≤ i := by omega
        rw [decide_eq_false h3,decide_eq_false h4,Bool.false_and,Bool.false_and]

theorem bitAt_shiftLeft (win : Words) (shift : UInt64) (i : Nat) (hi : i < windowBits) :
    bitAt (shiftLeft win shift) i=(decide (shift.toNat ≤ i) && bitAt win (i-shift.toNat)) := by
  rw [shiftLeft]
  by_cases hs : UInt64.ofNat windowBits ≤ shift
  · have hle : windowBits ≤ shift.toNat := UInt64.le_iff_toNat_le.mp hs
    rw [if_pos hs,bitAt,word_zero,maskBit_zero,decide_eq_false (by omega),Bool.false_and]
  · rw [if_neg hs,bitAt_shiftLoop win shift i hi]

theorem bitAt_setBit (win : Words) (b : UInt64) (i : Nat) (hi : i < windowBits) :
    bitAt (setBit win (b/64).toNat ((1 : UInt64)<<<(b%64))) i=(bitAt win i || decide (b.toNat=i)) := by
  have hw : i/wordBits < windowWords := Nat.div_lt_of_lt_mul hi
  have hq : (b/64).toNat=b.toNat/64 := UInt64.toNat_div _ _
  have hr : (b%64).toNat=b.toNat%64 := UInt64.toNat_mod _ _
  rw [bitAt,setBit,word_set _ _ _ _ hw,bitAt]
  simp only [wordBits,hq] at *
  by_cases hd : b.toNat/64=i/64
  · rw [if_pos hd,maskBit_mark _ _ (by omega),hr,hd]
    congr 1
    exact decide_eq_decide.mpr (by omega)
  · have hne : ¬b.toNat=i := by omega
    rw [if_neg hd,decide_eq_false hne,Bool.or_false]

theorem bitAt_setBit_zero (win : Words) (i : Nat) (hi : i < windowBits) :
    bitAt (setBit win 0 1) i=(bitAt win i || decide (i=0)) := by
  have h := bitAt_setBit win 0 i hi
  rw [decide_eq_decide.mpr (eq_comm : i=0 ↔ 0=i)]
  exact h

/-- A started window of the code stands for an abstract one: the same top, and
bit `i` says whether the counter `i` below the top was taken. -/
structure Follows (r : ReplayWindow) (a : Window) : Prop where
  started : r.initialized=true
  top : a.top=r.largest.toNat
  bit : ∀i,i < windowBits → i ≤ a.top → (bitAt r.window i=true ↔ a.top-i∈a.seen)

theorem follows_first (c : UInt64) :
    (ReplayWindow.new.check c).1=true ∧ Follows (ReplayWindow.new.check c).2 (Window.first c.toNat) := by
  refine ⟨rfl,rfl,rfl,?_⟩
  intro i hi ht
  have hnew : bitAt (Vector.replicate windowWords 0) i=false := by rw [bitAt,word_zero,maskBit_zero]
  show bitAt (setBit (Vector.replicate windowWords 0) 0 1) i=true ↔ _
  rw [bitAt_setBit_zero _ _ hi,hnew,Bool.false_or,decide_eq_true_iff]
  simp only [Window.first,Finset.mem_singleton] at ht ⊢
  omega

section Check

variable {r : ReplayWindow} {a : Window}

theorem Follows.advance (h : Follows r a) (c : UInt64) (hc : r.largest < c) :
    Follows { r with window := setBit (shiftLeft r.window (c-r.largest)) 0 1,largest := c } (a.accept c.toNat) := by
  have hlt : a.top < c.toNat := by
    rw [h.top]
    exact UInt64.lt_iff_toNat_lt.mp hc
  have hmax : max a.top c.toNat=c.toNat := Nat.max_eq_right hlt.le
  have hsub : (c-r.largest).toNat=c.toNat-a.top := by
    rw [UInt64.toNat_sub_of_le _ _ (UInt64.le_of_lt hc),h.top]
  refine ⟨h.started,hmax,?_⟩
  intro i hi ht
  rw [Window.accept_top,hmax] at ht
  rw [bitAt_setBit_zero _ _ hi,bitAt_shiftLeft _ _ _ hi,hsub,Window.accept_top,Window.accept_seen,hmax,
    Finset.mem_insert]
  by_cases h0 : i=0
  · simp [h0]
  have hne : ¬c.toNat-i=c.toNat := by omega
  simp only [h0,decide_false,Bool.or_false,hne,false_or]
  by_cases hle : c.toNat-a.top ≤ i
  · have hb := h.bit (i-(c.toNat-a.top)) (by omega) (by omega)
    have he : a.top-(i-(c.toNat-a.top))=c.toNat-i := by omega
    rw [decide_eq_true hle,Bool.true_and,hb,he]
  · have hout : c.toNat-i∉a.seen := by
      intro hs
      have := a.bound _ hs
      omega
    simp [hle,hout]

theorem Follows.mark (h : Follows r a) (c : UInt64) (hc : c.toNat ≤ a.top) :
    Follows { r with window := setBit r.window ((r.largest-c)/64).toNat ((1 : UInt64)<<<((r.largest-c)%64)) }
      (a.accept c.toNat) := by
  have hsub : (r.largest-c).toNat=a.top-c.toNat := by
    have hle : c ≤ r.largest := UInt64.le_iff_toNat_le.mpr (by rw [← h.top]; exact hc)
    rw [UInt64.toNat_sub_of_le _ _ hle,h.top]
  have hmax : max a.top c.toNat=a.top := Nat.max_eq_left hc
  refine ⟨h.started,by rw [Window.accept_top,hmax]; exact h.top,?_⟩
  intro i hi ht
  rw [Window.accept_top,hmax] at ht
  rw [bitAt_setBit _ _ _ hi,hsub,Window.accept_top,Window.accept_seen,hmax,
    Finset.mem_insert,Bool.or_eq_true,h.bit i hi ht,decide_eq_true_iff,or_comm]
  have he : a.top-c.toNat=i ↔ a.top-i=c.toNat := by omega
  rw [he]

/-- The words and their shifts implement the abstract window of 1024 numbers. -/
theorem Follows.check (h : Follows r a) (c : UInt64) :
    (r.check c).1=decide (a.Fresh windowBits c.toNat) ∧ Follows (r.check c).2 (a.step windowBits c.toNat) := by
  have hlt : r.largest < c ↔ a.top < c.toNat := by
    rw [h.top]
    exact UInt64.lt_iff_toNat_lt
  have hi : ¬r.initialized=false := by rw [h.started]; decide
  rw [ReplayWindow.check,if_neg hi]
  by_cases hup : a.top < c.toNat
  · have hf : a.Fresh windowBits c.toNat := Or.inl hup
    rw [if_pos (hlt.mpr hup),Window.step_of_fresh hf,decide_eq_true hf]
    exact ⟨rfl,h.advance c (hlt.mpr hup)⟩
  rw [if_neg (fun hc => hup (hlt.mp hc))]
  have hle : c.toNat ≤ a.top := Nat.le_of_not_lt hup
  have hsub : (r.largest-c).toNat=a.top-c.toNat := by
    have hc : c ≤ r.largest := UInt64.le_iff_toNat_le.mpr (by rw [← h.top]; exact hle)
    rw [UInt64.toNat_sub_of_le _ _ hc,h.top]
  by_cases hwide : windowBits ≤ a.top-c.toNat
  · have hf : ¬a.Fresh windowBits c.toNat := by
      intro hw
      obtain ht|⟨hn,_⟩ := hw
      · exact hup ht
      · omega
    have hcode : UInt64.ofNat windowBits ≤ r.largest-c := UInt64.le_iff_toNat_le.mpr (by rw [hsub]; exact hwide)
    rw [if_pos hcode,Window.step_of_not_fresh hf,decide_eq_false hf]
    exact ⟨rfl,h⟩
  have hnarrow : a.top-c.toNat < windowBits := Nat.lt_of_not_le hwide
  have hcode : ¬UInt64.ofNat windowBits ≤ r.largest-c := fun hc => hwide (by
    rw [← hsub]
    exact UInt64.le_iff_toNat_le.mp hc)
  rw [if_neg hcode]
  have hq : ((r.largest-c)/64).toNat=(a.top-c.toNat)/64 := by rw [UInt64.toNat_div,hsub]; rfl
  have hr : ((r.largest-c)%64).toNat=(a.top-c.toNat)%64 := by rw [UInt64.toNat_mod,hsub]; rfl
  have hbit : word r.window ((r.largest-c)/64).toNat&&&((1 : UInt64)<<<((r.largest-c)%64))≠0 ↔ c.toNat∈a.seen := by
    have hb := h.bit (a.top-c.toNat) hnarrow (Nat.sub_le _ _)
    rw [Nat.sub_sub_self hle] at hb
    rw [and_bit_ne_zero _ _ (by rw [hr]; exact Nat.mod_lt _ (by decide)),← hb,hq,hr]
    rfl
  by_cases hs : c.toNat∈a.seen
  · have hf : ¬a.Fresh windowBits c.toNat := Window.not_fresh_of_seen hs
    rw [Window.step_of_not_fresh hf,decide_eq_false hf]
    simp only [if_pos (hbit.mpr hs)]
    exact ⟨trivial,h⟩
  · have hf : a.Fresh windowBits c.toNat := Or.inr ⟨hnarrow,hs⟩
    rw [Window.step_of_fresh hf,decide_eq_true hf]
    simp only [if_neg (fun hn => hs (hbit.mp hn))]
    exact ⟨trivial,h.mark c hle⟩

/-- A refused counter leaves the window alone and an accepted one never does. -/
theorem check_changes (r : ReplayWindow) (c : UInt64) : (r.check c).2=r ↔ (r.check c).1=false := by
  rw [ReplayWindow.check]
  by_cases hi : r.initialized=false
  · rw [if_pos hi]
    simp only [Bool.true_eq_false,iff_false]
    intro h
    have := congrArg ReplayWindow.initialized h
    rw [hi] at this
    cases this
  rw [if_neg hi]
  by_cases hup : r.largest < c
  · rw [if_pos hup]
    simp only [Bool.true_eq_false,iff_false]
    intro h
    have hl : c=r.largest := congrArg ReplayWindow.largest h
    rw [hl] at hup
    exact UInt64.lt_irrefl _ hup
  rw [if_neg hup]
  by_cases hwide : UInt64.ofNat windowBits ≤ r.largest-c
  · rw [if_pos hwide]
    simp
  rw [if_neg hwide]
  have hd : (r.largest-c).toNat < windowBits := UInt64.lt_iff_toNat_lt.mp (UInt64.not_le.mp hwide)
  have hm : ((r.largest-c)%64).toNat < 64 := by
    rw [UInt64.toNat_mod]
    exact Nat.mod_lt _ (by decide)
  have hbit := and_bit_ne_zero (word r.window ((r.largest-c)/64).toNat) ((r.largest-c)%64) hm
  by_cases hset : word r.window ((r.largest-c)/64).toNat&&&((1 : UInt64)<<<((r.largest-c)%64))≠0
  · simp only [if_pos hset]
  · simp only [if_neg hset,Bool.true_eq_false,iff_false]
    intro h
    have hw := congrArg (fun w => bitAt w.window (r.largest-c).toNat) h
    simp only at hw
    rw [bitAt_setBit _ _ _ hd] at hw
    have hclear : bitAt r.window (r.largest-c).toNat=false := by
      rw [bitAt]
      rw [hbit,UInt64.toNat_div,UInt64.toNat_mod] at hset
      exact Bool.eq_false_iff.mpr hset
    simp [hclear] at hw

end Check

end Bolina.Evidence
