import Bolina.Transport.Session
import Bolina.Framework.SlidingWindow
import Mathlib.Data.Nat.Bitwise
import Mathlib.Data.Finset.Range
import Mathlib.Data.Finset.Filter

namespace Bolina.Transport

open GuardedRun SlidingWindow

def maskBit (m : UInt64) (i : Nat) : Bool := m.toNat.testBit i

private theorem testBit_one (i : Nat) : Nat.testBit 1 i=decide (i=0) := by
  rw [Bool.eq_iff_iff,Nat.testBit_one_eq_true_iff_self_eq_zero,decide_eq_true_iff]

private theorem toNat_bit (b : UInt64) (hb : b.toNat<64) : ((1 : UInt64)<<<b).toNat=2^b.toNat := by
  have hp : 2^b.toNat<2^64 := Nat.pow_lt_pow_right (by decide) hb
  rw [UInt64.toNat_shiftLeft,Nat.mod_eq_of_lt hb,UInt64.toNat_one,Nat.one_shiftLeft,
    Nat.mod_eq_of_lt hp]

theorem maskBit_advance (m s : UInt64) (hs : s.toNat<64) (i : Nat) (hi : i<64) :
    maskBit ((m<<<s)|||1) i=(decide (i=0) || (decide (s.toNat ≤ i) && maskBit m (i-s.toNat))) := by
  rw [maskBit,UInt64.toNat_or,UInt64.toNat_shiftLeft,Nat.testBit_or,Nat.testBit_mod_two_pow,
    Nat.mod_eq_of_lt hs,UInt64.toNat_one,testBit_one,Nat.testBit_shiftLeft]
  simp only [hi,decide_true,Bool.true_and,maskBit]
  exact Bool.or_comm _ _

theorem maskBit_restart (i : Nat) : maskBit (0|||1) i=decide (i=0) := by
  rw [maskBit,UInt64.toNat_or,UInt64.toNat_zero,UInt64.toNat_one,Nat.zero_or,testBit_one]

theorem maskBit_mark (m b : UInt64) (hb : b.toNat<64) (i : Nat) :
    maskBit (m|||((1 : UInt64)<<<b)) i=(maskBit m i || decide (b.toNat=i)) := by
  rw [maskBit,UInt64.toNat_or,Nat.testBit_or,toNat_bit b hb,Nat.testBit_two_pow]
  rfl

theorem and_bit_ne_zero (m b : UInt64) (hb : b.toNat<64) :
    m&&&((1 : UInt64)<<<b)≠0 ↔ maskBit m b.toNat=true := by
  rw [Ne,← UInt64.toNat_inj,UInt64.toNat_and,toNat_bit b hb,Nat.and_two_pow,UInt64.toNat_zero]
  cases hm : maskBit m b.toNat <;> simp only [maskBit] at hm <;> simp [hm]

/-- A started window of the code stands for an abstract one: the same top, and
bit `i` of the mask says whether the counter `i` below the top was taken. -/
structure Tracks (w : ReplayWindow) (a : Window) : Prop where
  started : w.highest≠0
  top : a.top=w.highest.toNat
  bit : ∀i,i<64 → i ≤ a.top → (maskBit w.mask i=true ↔ a.top-i∈a.seen)

theorem check_of_zero (w : ReplayWindow) (h : w.highest=0) (c : UInt64) :
    w.check c=(true,⟨c,1⟩) := by
  rw [ReplayWindow.check,if_pos h]

/-- The first nonzero counter starts the window, whatever was taken before it. -/
theorem tracks_first (w : ReplayWindow) (h : w.highest=0) (c : UInt64) (hc : c≠0) :
    Tracks (w.check c).2 (Window.first c.toNat) := by
  rw [check_of_zero w h]
  refine ⟨hc,rfl,?_⟩
  intro i hi ht
  have hb : maskBit 1 i=decide (i=0) := testBit_one i
  simp only [Window.first] at ht ⊢
  rw [hb,decide_eq_true_iff,Finset.mem_singleton]
  omega

theorem Tracks.top_eq {w : ReplayWindow} {a : Window} (ht : Tracks w a) (c : UInt64) :
    (w.highest<c ↔ a.top<c.toNat) ∧ (c=w.highest ↔ c.toNat=a.top) := by
  rw [ht.top]
  exact ⟨UInt64.lt_iff_toNat_lt,UInt64.toNat_inj.symm⟩

/-- A new top: the mask moves up by the distance, or is cleared. -/
theorem tracks_advance (w : ReplayWindow) (a : Window) (ht : Tracks w a) (c : UInt64)
    (hc : w.highest<c) :
    Tracks ⟨c,(if 64 ≤ c-w.highest then 0 else w.mask<<<(c-w.highest))|||1⟩ (a.accept c.toNat) := by
  have hlt : a.top<c.toNat := (ht.top_eq c).1.mp hc
  have hmax : max a.top c.toNat=c.toNat := Nat.max_eq_right hlt.le
  have hsub : (c-w.highest).toNat=c.toNat-a.top := by
    rw [UInt64.toNat_sub_of_le _ _ (UInt64.le_iff_toNat_le.mpr (by rw [← ht.top]; omega)),ht.top]
  have h64 : (64 ≤ c-w.highest) ↔ 64 ≤ c.toNat-a.top := by
    rw [UInt64.le_iff_toNat_le,hsub]
    rfl
  refine ⟨?_,by simp [hmax],?_⟩
  · intro heq
    obtain rfl := heq
    simp at hlt
  intro i hi hit
  simp only [Window.accept_top,Window.accept_seen,hmax] at hit ⊢
  rw [Finset.mem_insert]
  by_cases hfar : 64 ≤ c.toNat-a.top
  · rw [if_pos (h64.mpr hfar),maskBit_restart,decide_eq_true_iff]
    constructor
    · intro h0
      exact Or.inl (by omega)
    · intro hw
      obtain h0|h0 := hw
      · omega
      · have hb := a.bound _ h0
        omega
  · rw [if_neg (mt h64.mp hfar),maskBit_advance _ _ (by omega) i hi,hsub]
    simp only [Bool.or_eq_true,decide_eq_true_iff,Bool.and_eq_true]
    have hshift (h1 : c.toNat-a.top ≤ i) :
        maskBit w.mask (i-(c.toNat-a.top))=true ↔ c.toNat-i∈a.seen := by
      rw [ht.bit _ (by omega) (by omega),show a.top-(i-(c.toNat-a.top))=c.toNat-i by omega]
    constructor
    · intro hw
      obtain h0|⟨h1,h2⟩ := hw
      · exact Or.inl (by omega)
      · exact Or.inr ((hshift h1).mp h2)
    · intro hw
      obtain h0|h0 := hw
      · exact Or.inl (by omega)
      · have hb := a.bound _ h0
        exact Or.inr ⟨by omega,(hshift (by omega)).mpr h0⟩

/-- A late counter: its bit is set and the top stays. -/
theorem tracks_mark (w : ReplayWindow) (a : Window) (ht : Tracks w a) (c : UInt64)
    (hc : c.toNat ≤ a.top) (hsub : (w.highest-c).toNat=a.top-c.toNat) (hnear : a.top-c.toNat<64) :
    Tracks ⟨w.highest,w.mask|||(1 : UInt64)<<<(w.highest-c)⟩ (a.accept c.toNat) := by
  have hmax : max a.top c.toNat=a.top := Nat.max_eq_left hc
  refine ⟨ht.started,by rw [Window.accept_top,hmax,ht.top],?_⟩
  intro i hi hit
  simp only [Window.accept_top,Window.accept_seen,hmax] at hit ⊢
  rw [maskBit_mark _ _ (by omega),hsub,Bool.or_eq_true,decide_eq_true_iff,ht.bit i hi hit,
    Finset.mem_insert]
  constructor
  · intro hw
    obtain h|h := hw
    · exact Or.inr h
    · exact Or.inl (by omega)
  · intro hw
    obtain h|h := hw
    · exact Or.inr (by omega)
    · exact Or.inl h

/-- A started window decides as the abstract window of width 64 does, and the two
stay related. -/
theorem check_tracks (w : ReplayWindow) (a : Window) (ht : Tracks w a) (c : UInt64) :
    ((w.check c).1=true ↔ a.Fresh 64 c.toNat) ∧
      Tracks (w.check c).2 (a.step 64 c.toNat) := by
  have htop := ht.top_eq c
  unfold ReplayWindow.check
  rw [if_neg ht.started]
  by_cases hgt : w.highest<c
  · have hf : a.Fresh 64 c.toNat := Or.inl (htop.1.mp hgt)
    rw [if_pos hgt,Window.step_of_fresh hf]
    exact ⟨by simp [hf],tracks_advance w a ht c hgt⟩
  have hge : c.toNat ≤ a.top := Nat.le_of_not_lt (mt htop.1.mpr hgt)
  rw [if_neg hgt]
  by_cases heq : c=w.highest
  · have hn : ¬a.Fresh 64 c.toNat :=
      Window.not_fresh_of_seen (by rw [htop.2.mp heq]; exact a.topSeen)
    rw [if_pos heq,Window.step_of_not_fresh hn]
    exact ⟨by simp [hn],ht⟩
  have hsub : (w.highest-c).toNat=a.top-c.toNat := by
    rw [UInt64.toNat_sub_of_le _ _ (UInt64.le_iff_toNat_le.mpr (by rw [← ht.top]; exact hge)),ht.top]
  have h64 : (64 ≤ w.highest-c) ↔ 64 ≤ a.top-c.toNat := by
    rw [UInt64.le_iff_toNat_le,hsub]
    rfl
  rw [if_neg heq]
  by_cases hfar : 64 ≤ a.top-c.toNat
  · have hn : ¬a.Fresh 64 c.toNat := by
      rintro (h|⟨h,_⟩) <;> omega
    simp only [h64,hfar,if_true]
    rw [Window.step_of_not_fresh hn]
    exact ⟨by simp [hn],ht⟩
  have hnear : a.top-c.toNat<64 := by omega
  have hseen : w.mask&&&(1 : UInt64)<<<(w.highest-c)≠0 ↔ c.toNat∈a.seen := by
    rw [and_bit_ne_zero _ _ (by omega),hsub,ht.bit _ hnear (by omega),
      show a.top-(a.top-c.toNat)=c.toNat by omega]
  simp only [h64,hfar,if_false,hseen]
  by_cases hmem : c.toNat∈a.seen
  · have hn : ¬a.Fresh 64 c.toNat := Window.not_fresh_of_seen hmem
    rw [if_pos hmem,Window.step_of_not_fresh hn]
    exact ⟨by simp [hn],ht⟩
  · have hf : a.Fresh 64 c.toNat := Or.inr ⟨hnear,hmem⟩
    rw [if_neg hmem,Window.step_of_fresh hf]
    exact ⟨by simp [hf],tracks_mark w a ht c hge hsub hnear⟩

section Run

def ReplayWindow.step (w : ReplayWindow) (c : UInt64) : ReplayWindow := (w.check c).2

def ReplayWindow.takes (d : UInt64) (w : ReplayWindow) (c : UInt64) : Bool :=
  d==c && (w.check c).1

/-- Either nothing but counter zero has been taken, or the window stands for an
abstract one. -/
def Reached (w : ReplayWindow) : Prop := w.highest=0 ∨ ∃a,Tracks w a

theorem reached_step (w : ReplayWindow) (c : UInt64) (h : Reached w) : Reached (w.step c) := by
  rcases h with h|⟨a,ht⟩
  · by_cases hc : c=0
    · left
      rw [ReplayWindow.step,check_of_zero w h,hc]
    · exact Or.inr ⟨_,tracks_first w h c hc⟩
  · exact Or.inr ⟨_,(check_tracks w a ht c).2⟩

def Taken (d : UInt64) (w : ReplayWindow) : Prop := ∃a,Tracks w a ∧ d.toNat∈a.seen

/-- A counter that the window takes is recorded and never taken again, unless it
is zero and the window has not started. -/
theorem window_spends (d : UInt64) :
    Spends ReplayWindow.step (ReplayWindow.takes d)
      (fun w _ => (∃a,Tracks w a) ∨ (w.highest=0 ∧ d≠0)) (Taken d) where
  refuse w c _ := by
    intro hw
    obtain ⟨a,ht,hs⟩ := hw
    have hr := (Window.spends 64 d.toNat).refuse a c.toNat trivial hs
    rw [Bool.eq_false_iff] at hr ⊢
    intro hc
    simp only [ReplayWindow.takes,Bool.and_eq_true,beq_iff_eq] at hc
    obtain ⟨rfl,hf⟩ := hc
    exact hr (by simp [(check_tracks w a ht d).1.mp hf])
  keep w c _ := by
    intro hw
    obtain ⟨a,ht,hs⟩ := hw
    exact ⟨_,(check_tracks w a ht c).2,(Window.spends 64 d.toNat).keep a c.toNat trivial hs⟩
  spend w c hr hf := by
    simp only [ReplayWindow.takes,Bool.and_eq_true,beq_iff_eq] at hf
    obtain ⟨rfl,hf⟩ := hf
    rcases hr with ⟨a,ht⟩|⟨h,hd⟩
    · have hc := check_tracks w a ht d
      have hfresh := hc.1.mp hf
      exact ⟨_,hc.2,(Window.spends 64 d.toNat).spend a d.toNat trivial (by simp [hfresh])⟩
    · exact ⟨_,tracks_first w h d hd,by simp [Window.first]⟩

theorem taken_once_of_ne (w : ReplayWindow) (cs : List UInt64) (d : UInt64) (hw : Reached w)
    (hd : d≠0) : count ReplayWindow.step (ReplayWindow.takes d) w cs≤1 :=
  (window_spends d).count_le_one w cs (meets_of_invariant reached_step
    (fun _ _ h => h.elim (fun hz => Or.inr ⟨hz,hd⟩) Or.inl) w cs hw)

theorem taken_once_of_tracks (w : ReplayWindow) (cs : List UInt64) (d : UInt64)
    (hw : ∃a,Tracks w a) : count ReplayWindow.step (ReplayWindow.takes d) w cs≤1 :=
  (window_spends d).count_le_one w cs (meets_of_invariant
    (fun w c ⟨a,ht⟩ => ⟨_,(check_tracks w a ht c).2⟩) (fun _ _ h => Or.inl h) w cs hw)

/-- Counter zero would still be taken: it is not recorded, and the top is less
than a mask away. -/
def ZeroOpen (w : ReplayWindow) : Prop :=
  w.highest=0 ∨ ∃a,Tracks w a ∧ 0∉a.seen ∧ a.top<64

theorem zeroOpen_takes (w : ReplayWindow) (h : ZeroOpen w) : (w.check 0).1=true := by
  rcases h with h|⟨a,ht,hs,h64⟩
  · rw [check_of_zero w h]
  · exact (check_tracks w a ht 0).1.mpr (Or.inr ⟨by simpa using h64,by simpa using hs⟩)

theorem zeroOpen_step (w : ReplayWindow) (h : ZeroOpen w) (c : UInt64) (hc : c≠0)
    (hl : c.toNat<64) : ZeroOpen (w.step c) := by
  have h0 : c.toNat≠0 := fun h => hc (UInt64.toNat_inj.mp h)
  right
  rcases h with h|⟨a,ht,hs,h64⟩
  · exact ⟨_,tracks_first w h c hc,by simpa [Window.first] using h0.symm,hl⟩
  · refine ⟨_,(check_tracks w a ht c).2,?_,Window.top_step_le h64 hl⟩
    intro hm
    rcases Window.mem_step_seen hm with h|h
    · exact h0 h.symm
    · exact hs h

/-- Once the top is a mask away, counter zero is refused for good. -/
theorem zero_shut (w : ReplayWindow) (cs : List UInt64) (a : Window) (ht : Tracks w a)
    (h64 : 64 ≤ a.top) : count ReplayWindow.step (ReplayWindow.takes 0) w cs=0 := by
  induction cs generalizing w a with
  | nil => rfl
  | cons c cs ih =>
    have hc := check_tracks w a ht c
    have hf : ReplayWindow.takes 0 w c=false := by
      cases h0 : (0==c) with
      | false => simp [ReplayWindow.takes,h0]
      | true =>
        have hz : c=0 := (beq_iff_eq.mp h0).symm
        have hn : ¬a.Fresh 64 c.toNat := by
          rw [hz]
          intro hw
          obtain h|⟨h,_⟩ := hw
          · simp at h
          · simp only [UInt64.toNat_zero] at h
            omega
        simp [ReplayWindow.takes,mt hc.1.mp hn]
    rw [count,hf,ih (w.step c) _ hc.2 (h64.trans (Window.le_top_step a c.toNat))]
    rfl

/-- Counter zero arrives while every counter before it is below 64. -/
def ZeroSoon (cs : List UInt64) : Prop :=
  ∃mid post,cs=mid++0::post ∧ ∀c∈mid,c.toNat<64

theorem zeroSoon_cons (c : UInt64) (cs : List UInt64) (hc : c≠0) :
    ZeroSoon (c::cs) ↔ c.toNat<64 ∧ ZeroSoon cs := by
  constructor
  · intro hw
    obtain ⟨mid,post,he,hm⟩ := hw
    cases mid with
    | nil => exact absurd (List.cons.inj he).1 hc
    | cons m mid =>
      obtain ⟨rfl,htail⟩ := List.cons.inj (he.trans (List.cons_append ..))
      exact ⟨hm c (by simp),mid,post,htail,fun d hd => hm d (by simp [hd])⟩
  · intro hw
    obtain ⟨hl,mid,post,he,hm⟩ := hw
    refine ⟨c::mid,post,by simp [he],?_⟩
    intro d hd
    rcases List.mem_cons.mp hd with rfl|hd
    · exact hl
    · exact hm d hd

theorem zero_taken_iff (w : ReplayWindow) (cs : List UInt64) (h : ZeroOpen w) :
    0<count ReplayWindow.step (ReplayWindow.takes 0) w cs ↔ ZeroSoon cs := by
  induction cs generalizing w with
  | nil => simp [count,ZeroSoon]
  | cons c cs ih =>
    rw [count]
    by_cases hc : c=0
    · have hf : ReplayWindow.takes 0 w c=true := by
        simp [ReplayWindow.takes,hc,zeroOpen_takes w h]
      simp only [hf,Bool.toNat_true]
      exact ⟨fun _ => ⟨[],cs,by simp [hc],by simp⟩,fun _ => by omega⟩
    · have hf : ReplayWindow.takes 0 w c=false := by
        have hb : ((0 : UInt64)==c)=false := beq_false_of_ne (Ne.symm hc)
        simp [ReplayWindow.takes,hb]
      rw [hf,zeroSoon_cons c cs hc]
      simp only [Bool.toNat_false,Nat.zero_add]
      by_cases hl : c.toNat<64
      · rw [ih _ (zeroOpen_step w h c hc hl)]
        simp [hl]
      · -- a jump past the mask shuts the window to zero
        have hz : count ReplayWindow.step (ReplayWindow.takes 0) (w.step c) cs=0 := by
          rcases h with h|⟨a,ht,hs,h64⟩
          · exact zero_shut _ cs _ (tracks_first w h c hc) (by simpa [Window.first] using hl)
          · have hk := check_tracks w a ht c
            have hfr : a.Fresh 64 c.toNat := Or.inl (by omega)
            refine zero_shut _ cs _ hk.2 ?_
            rw [Window.step_of_fresh hfr,Window.accept_top]
            omega
        simp [hz,hl]

theorem count_takes_of_notMem (d : UInt64) (w : ReplayWindow) (cs : List UInt64) (hd : d∉cs) :
    count ReplayWindow.step (ReplayWindow.takes d) w cs=0 := by
  induction cs generalizing w with
  | nil => rfl
  | cons c cs ih =>
    have hn : d≠c ∧ d∉cs := by simpa using hd
    have hb : (d==c)=false := beq_false_of_ne hn.1
    simp [count,ReplayWindow.takes,hb,ih _ hn.2]

/-- Which counter sequences a fresh window takes at most once each: all but those
that start at zero and bring zero again before any counter of 64 or more. -/
theorem window_once_iff (cs : List UInt64) :
    (∀d,count ReplayWindow.step (ReplayWindow.takes d) ReplayWindow.new cs≤1) ↔
      ¬∃rest,cs=0::rest ∧ ZeroSoon rest := by
  cases cs with
  | nil => simp [count]
  | cons c cs =>
    by_cases hc : c=0
    · subst hc
      have hopen : ZeroOpen (ReplayWindow.new.step 0) := Or.inl rfl
      have hz := zero_taken_iff _ cs hopen
      have hfirst : count ReplayWindow.step (ReplayWindow.takes 0) ReplayWindow.new (0::cs)=
          1+count ReplayWindow.step (ReplayWindow.takes 0) (ReplayWindow.new.step 0) cs := rfl
      constructor
      · intro h hex
        obtain ⟨rest,he,hs⟩ := hex
        obtain ⟨-,rfl⟩ := List.cons.inj he
        have h0 := h 0
        have hp := hz.mpr hs
        omega
      · intro h d
        by_cases hd : d=0
        · subst hd
          have hn : ¬0<count ReplayWindow.step (ReplayWindow.takes 0) (ReplayWindow.new.step 0) cs :=
            fun hp => h ⟨cs,rfl,hz.mp hp⟩
          omega
        · exact taken_once_of_ne _ _ d (Or.inl rfl) hd
    · have hno : ¬∃rest,c::cs=0::rest ∧ ZeroSoon rest := by
        intro hex
        obtain ⟨rest,he,_⟩ := hex
        exact hc (List.cons.inj he).1
      refine ⟨fun _ => hno,fun _ d => ?_⟩
      by_cases hd : d=0
      · have hstart := tracks_first ReplayWindow.new rfl c hc
        have hb : ((0 : UInt64)==c)=false := beq_false_of_ne (Ne.symm hc)
        have hf : ReplayWindow.takes 0 ReplayWindow.new c=false := by
          simp [ReplayWindow.takes,hb]
        have ho := taken_once_of_tracks (ReplayWindow.new.step c) cs 0 ⟨_,hstart⟩
        rw [hd,count,hf]
        simpa using ho
      · exact taken_once_of_ne _ _ d (Or.inl rfl) hd

end Run

end Bolina.Transport
