import Bolina.Evidence.ReplaySpec
import Bolina.Transport.SessionReplay

namespace Bolina.Transport

open GuardedRun SlidingWindow Lockstep

/-- A counter that is new, and too late for 64 numbers but not for 1024. -/
def Late (before : List UInt64) (c : UInt64) : Prop :=
  c∉before ∧ ∃top∈before,(∀d∈before,d ≤ top) ∧ 64 ≤ top.toNat-c.toNat ∧ top.toNat-c.toNat ≤ 1023

/-- Counter zero came first, and comes again while all others were below 64. -/
def ZeroAgain (before : List UInt64) (c : UInt64) : Prop :=
  c=0 ∧ ∃mid,before=0::mid ∧ ∀d∈mid,d.toNat < 64

section Alike

/-- Both windows have started and know the same, but for a zero that came first. -/
structure Abreast (before : List UInt64) (a b : Window) : Prop where
  tracks : Tracks (after ReplayWindow.check ReplayWindow.new before) a
  recounts : Evidence.Recounts before b
  settled : b.Settled Evidence.windowBits (before.map UInt64.toNat)
  top : a.top=b.top
  seen : ∀n,n∈a.seen ↔ n∈b.seen ∧ ¬(n=0 ∧ before.head?=some 0)
  zero : before.head?=some 0 → 0∈b.seen

variable {before : List UInt64} {a b : Window}

theorem Abreast.taken_iff (h : Abreast before a b) (c : UInt64) (hc : b.top-c.toNat < 1024) :
    c.toNat∉b.seen ↔ c∉before := by
  have hsub : ∀n,(∃d,d.toNat=n ∧ Evidence.Spent before d) → n∈before.map UInt64.toNat := by
    intro n hw
    obtain ⟨d,rfl,mid,rest,rfl,_⟩ := hw
    exact List.mem_map_of_mem (by simp)
  rw [h.settled.not_seen_iff h.recounts.2 hsub c.toNat hc,List.mem_map]
  refine not_congr ⟨?_,fun hm => ⟨c,hm,rfl⟩⟩
  intro hw
  obtain ⟨d,hd,he⟩ := hw
  rwa [← UInt64.toNat_inj.mp he]

theorem Abreast.late_iff (h : Abreast before a b) (c : UInt64) :
    Late before c ↔ c.toNat∉b.seen ∧ 64 ≤ b.top-c.toNat ∧ b.top-c.toNat < 1024 := by
  have hr := h.recounts.2
  constructor
  · intro hw
    obtain ⟨hnew,top,hmem,hlargest,hfar,hnear⟩ := hw
    have htop : top.toNat=b.top := by
      obtain ⟨d,hd,he⟩ := List.mem_map.mp hr.topMem
      have hle := UInt64.le_iff_toNat_le.mp (hlargest d hd)
      exact Nat.le_antisymm (hr.largest _ (List.mem_map_of_mem hmem)) (he ▸ hle)
    rw [htop] at hfar hnear
    exact ⟨(h.taken_iff c (by omega)).mpr hnew,hfar,by omega⟩
  · intro hw
    obtain ⟨hnew,hfar,hnear⟩ := hw
    obtain ⟨top,hmem,he⟩ := List.mem_map.mp hr.topMem
    rw [← he] at hfar hnear
    refine ⟨(h.taken_iff c (by omega)).mp hnew,top,hmem,?_,hfar,by omega⟩
    intro d hd
    rw [UInt64.le_iff_toNat_le,he]
    exact hr.largest _ (List.mem_map_of_mem hd)

theorem Abreast.zeroAgain_iff (h : Abreast before a b) (c : UInt64) :
    ZeroAgain before c ↔ c=0 ∧ before.head?=some 0 ∧ b.top < 64 := by
  have hr := h.recounts.2
  refine and_congr Iff.rfl ⟨?_,?_⟩
  · intro hw
    obtain ⟨mid,rfl,hmid⟩ := hw
    obtain ⟨d,hd,he⟩ := List.mem_map.mp hr.topMem
    refine ⟨rfl,?_⟩
    rw [← he]
    rcases List.mem_cons.mp hd with rfl | hd
    · decide
    · exact hmid d hd
  · intro hw
    obtain ⟨hhead,htop⟩ := hw
    obtain ⟨mid,rfl⟩ := List.head?_eq_some_iff.mp hhead
    refine ⟨mid,rfl,?_⟩
    intro d hd
    exact (hr.largest _ (List.mem_map_of_mem (List.mem_cons_of_mem 0 hd))).trans_lt htop

/-- Two widths decide alike outside the gap between them. -/
theorem fresh_widths (top c : Nat) (new : Prop) :
    ((top < c ∨ (top-c < 64 ∧ new)) ↔ (top < c ∨ (top-c < 1024 ∧ new))) ↔ ¬(new ∧ 64 ≤ top-c ∧ top-c < 1024) := by
  by_cases hn : new
  · simp only [hn,and_true,true_and]
    omega
  · simp only [hn,and_false,or_false,false_and,not_false_iff]

/-- The two windows answer a counter alike unless it is late or zero again. -/
theorem Abreast.alike_iff (h : Abreast before a b) (c : UInt64) :
    (a.Fresh 64 c.toNat ↔ b.Fresh Evidence.windowBits c.toNat) ↔ ¬Late before c ∧ ¬ZeroAgain before c := by
  have hz : c=0 ↔ c.toNat=0 := UInt64.toNat_inj.symm
  have hw : Evidence.windowBits=1024 := rfl
  rw [h.late_iff,h.zeroAgain_iff,Window.Fresh,Window.Fresh,h.top,h.seen,hz,hw]
  by_cases hagain : c.toNat=0 ∧ before.head?=some 0
  · -- the zero that came first is recalled by the wide window alone
    have hzero := h.zero hagain.2
    simp only [hagain.1,hagain.2,hzero,not_true_eq_false,and_self,and_false,not_false_iff,and_true,
      or_false,true_and,false_and,Nat.not_lt_zero,false_or,iff_false,Nat.sub_zero]
  · have hnone : ¬(c.toNat=0 ∧ before.head?=some 0 ∧ b.top < 64) := fun hc => hagain ⟨hc.1,hc.2.1⟩
    rw [and_iff_left hagain,fresh_widths]
    exact ⟨fun hl => ⟨hl,hnone⟩,fun hl => hl.1⟩

theorem Abreast.step (h : Abreast before a b) (c : UInt64) (hne : before≠[])
    (halike : a.Fresh 64 c.toNat ↔ b.Fresh Evidence.windowBits c.toNat) :
    Abreast (before++[c]) (a.step 64 c.toNat) (b.step Evidence.windowBits c.toNat) := by
  have hhead : (before++[c]).head?=before.head? := List.head?_append_of_ne_nil _ hne
  have hsettled := h.settled.step c.toNat
  refine ⟨?_,h.recounts.step c,?_,?_,?_,?_⟩
  · rw [after_concat]
    exact (check_tracks _ a h.tracks c).2
  · rw [List.map_append]
    exact hsettled
  · by_cases hf : a.Fresh 64 c.toNat
    · rw [Window.step_of_fresh hf,Window.step_of_fresh (halike.mp hf),Window.accept_top,Window.accept_top,h.top]
    · rw [Window.step_of_not_fresh hf,Window.step_of_not_fresh (mt halike.mpr hf),h.top]
  · intro n
    rw [hhead]
    by_cases hf : a.Fresh 64 c.toNat
    · have hfb := halike.mp hf
      rw [Window.step_of_fresh hf,Window.step_of_fresh hfb,Window.accept_seen,Window.accept_seen,
        Finset.mem_insert,Finset.mem_insert,h.seen n]
      have hc : before.head?=some 0 → c.toNat≠0 := by
        intro hh he
        exact Window.not_fresh_of_seen (he ▸ h.zero hh) hfb
      by_cases hn : n=c.toNat
      · have hkeep : ¬(n=0 ∧ before.head?=some 0) := fun hz => hc hz.2 (hn ▸ hz.1)
        simp only [hn,true_or,true_and,true_iff]
        exact hn ▸ hkeep
      · simp only [hn,false_or]
    · rw [Window.step_of_not_fresh hf,Window.step_of_not_fresh (mt halike.mpr hf),h.seen n]
  · intro hh
    exact Window.seen_step (h.zero (hhead ▸ hh))

theorem answer_tracks {w : ReplayWindow} {a : Window} (ht : Tracks w a) (c : UInt64) :
    (w.check c).1=decide (a.Fresh 64 c.toNat) := by
  rw [Bool.eq_iff_iff,decide_eq_true_iff]
  exact (check_tracks w a ht c).1

/-- As long as both windows have answered alike, they stand abreast, or nothing but one zero has come. -/
def Paired (before : List UInt64) : Prop := before=[] ∨ before=[0] ∨ (before≠[] ∧ ∃a b,Abreast before a b)

theorem paired_first (c : UInt64) : Paired [c] := by
  by_cases hc : c=0
  · exact .inr (.inl (by rw [hc]))
  · refine .inr (.inr ⟨List.cons_ne_nil c [],_,_,tracks_first ReplayWindow.new rfl c hc,Evidence.recounts_first c,
      Window.settled_first _ _,rfl,?_,?_⟩)
    · intro n
      simp [hc]
    · intro h
      exact absurd (Option.some.inj h) hc

/-- Behind a first zero, any other counter starts the session's window anew. -/
theorem paired_second (c : UInt64) (hc : c≠0) : Paired [0,c] := by
  have h0 : c.toNat≠0 := fun he => hc (UInt64.toNat_inj.mp he)
  have hfresh : (Window.first 0).Fresh Evidence.windowBits c.toNat := .inl (Nat.pos_of_ne_zero h0)
  have hsettled := (Window.settled_first Evidence.windowBits 0).step c.toNat
  refine .inr (.inr ⟨List.cons_ne_nil 0 [c],Window.first c.toNat,_,tracks_first ⟨0,1⟩ rfl c hc,
    (Evidence.recounts_first 0).step c,hsettled,?_,?_,?_⟩)
  · rw [UInt64.toNat_zero,Window.step_of_fresh hfresh]
    exact (Nat.max_eq_right (Nat.zero_le _)).symm
  · intro n
    rw [UInt64.toNat_zero,Window.step_of_fresh hfresh,Window.accept_seen]
    simp only [Window.first,Finset.mem_insert,Finset.mem_singleton,List.head?_cons,and_true]
    omega
  · intro _
    rw [UInt64.toNat_zero]
    exact Window.seen_step (Finset.mem_singleton_self 0)

theorem Paired.alike_iff {before : List UInt64} (h : Paired before) (c : UInt64) :
    answer ReplayWindow.check ReplayWindow.new before c=
        answer Evidence.ReplayWindow.check Evidence.ReplayWindow.new before c ↔
      ¬Late before c ∧ ¬ZeroAgain before c := by
  rcases h with rfl | rfl | ⟨_,a,b,hm⟩
  · have hlate : ¬Late [] c := fun ⟨_,top,hmem,_⟩ => absurd hmem List.not_mem_nil
    have hzero : ¬ZeroAgain [] c := fun ⟨_,mid,he,_⟩ => absurd he.symm (List.cons_ne_nil 0 mid)
    exact ⟨fun _ => ⟨hlate,hzero⟩,fun _ => rfl⟩
  · have hcode : answer ReplayWindow.check ReplayWindow.new [0] c=true := rfl
    have hspec := ((Evidence.recounts_first 0).1.check c).1
    have hfresh : (Window.first (0 : UInt64).toNat).Fresh Evidence.windowBits c.toNat ↔ ¬c=0 := by
      have hz : c=0 ↔ c.toNat=0 := UInt64.toNat_inj.symm
      simp only [Window.Fresh,Window.first,UInt64.toNat_zero,Finset.mem_singleton,hz,Evidence.windowBits]
      omega
    have hlate : ¬Late [0] c := by
      intro hw
      obtain ⟨_,top,hmem,_,hfar,_⟩ := hw
      rw [List.mem_singleton.mp hmem] at hfar
      simp at hfar
    have hzero : ZeroAgain [0] c ↔ c=0 := ⟨fun hz => hz.1,fun hc => ⟨hc,[],rfl,by simp⟩⟩
    rw [hcode,answer,hspec,hzero,eq_comm,decide_eq_true_iff,hfresh]
    exact ⟨fun hc => ⟨hlate,hc⟩,fun hc => hc.2⟩
  · rw [answer,answer,answer_tracks hm.tracks,(hm.recounts.1.check c).1,decide_eq_decide]
    exact hm.alike_iff c

theorem Paired.step {before : List UInt64} (h : Paired before) (c : UInt64)
    (halike : ¬Late before c ∧ ¬ZeroAgain before c) : Paired (before++[c]) := by
  rcases h with rfl | rfl | ⟨hne,a,b,hm⟩
  · exact paired_first c
  · exact paired_second c (fun hc => halike.2 ⟨hc,[],rfl,by simp⟩)
  · exact .inr (.inr ⟨by simp,_,_,hm.step c hne ((hm.alike_iff c).mpr halike)⟩)

/-- The two windows give the same verdicts along a run exactly when no counter of it is late
and no first zero comes again. -/
theorem verdicts_alike_iff (cs : List UInt64) :
    (answers ReplayWindow.check ReplayWindow.new cs=
        answers Evidence.ReplayWindow.check Evidence.ReplayWindow.new cs ↔
      Throughout (fun before c => ¬Late before c ∧ ¬ZeroAgain before c) cs) ∧
    (Throughout (fun before c => ¬Late before c ∧ ¬ZeroAgain before c) cs → Paired cs) := by
  induction cs using List.reverseRecOn with
  | nil => exact ⟨⟨fun _ => throughout_nil _,fun _ => rfl⟩,fun _ => .inl rfl⟩
  | append_singleton cs c ih =>
    obtain ⟨hiff,hpaired⟩ := ih
    rw [answers_concat_eq,throughout_concat,hiff]
    constructor
    · exact and_congr_right (fun hcs => (hpaired hcs).alike_iff c)
    · exact fun hcs => (hpaired hcs.1).step c hcs.2

end Alike

section Delivery

/-- The counters of the packets that a schedule has opened. -/
def openedCounters (A : Aead) : Session → List Delivery → List UInt64
  | _,[] => []
  | s,d::sched =>
    if (deliver A s d).1.isOk then headerCounter d.1::openedCounters A (deliverStep A s d) sched
    else openedCounters A (deliverStep A s d) sched

/-- The window knows what has been opened, up to zeros that came before anything else. -/
def Knows (w : ReplayWindow) (opened : List UInt64) : Prop :=
  (w.highest=0 ∧ ∀c∈opened,c=0) ∨
    ∃a,Tracks w a ∧ (∀c∈opened,c.toNat ≤ a.top) ∧ ∀n∈a.seen,∃c∈opened,c.toNat=n

/-- A counter that was not opened is taken exactly when nothing opened is 64 or more above it. -/
theorem knows_check (w : ReplayWindow) (opened : List UInt64) (c : UInt64) (h : Knows w opened) (hc : c∉opened) :
    (w.check c).1=true ↔ ∀d∈opened,d.toNat < c.toNat+64 := by
  rcases h with ⟨hz,hall⟩ | ⟨a,ht,hle,hseen⟩
  · rw [check_of_zero w hz]
    refine ⟨fun _ d hd => ?_,fun _ => rfl⟩
    rw [hall d hd,UInt64.toNat_zero]
    omega
  · have hnew : c.toNat∉a.seen := by
      intro hm
      obtain ⟨d,hd,he⟩ := hseen _ hm
      exact hc (UInt64.toNat_inj.mp he ▸ hd)
    rw [(check_tracks w a ht c).1]
    constructor
    · intro hf d hd
      have hd' := hle d hd
      rcases hf with hlt | ⟨hnear,_⟩ <;> omega
    · intro hall
      obtain ⟨d,hd,he⟩ := hseen _ a.topSeen
      have hd' := hall d hd
      by_cases hlt : a.top < c.toNat
      · exact .inl hlt
      · exact .inr ⟨by omega,hnew⟩

/-- A counter put to the window joins what was opened when the window takes it. -/
theorem Knows.step {w : ReplayWindow} {opened : List UInt64} (h : Knows w opened) (c : UInt64) :
    Knows (w.step c) (if (w.check c).1 then opened++[c] else opened) := by
  rcases h with ⟨hz,hall⟩ | ⟨a,ht,hle,hseen⟩
  · have htake : (w.check c).1=true := by rw [check_of_zero w hz]
    rw [if_pos htake]
    by_cases hc : c=0
    · refine .inl ⟨by rw [ReplayWindow.step,check_of_zero w hz]; exact hc,?_⟩
      intro d hd
      rcases List.mem_append.mp hd with hd | hd
      · exact hall d hd
      · rw [List.mem_singleton.mp hd,hc]
    · refine .inr ⟨_,tracks_first w hz c hc,?_,?_⟩
      · intro d hd
        rcases List.mem_append.mp hd with hd | hd
        · rw [hall d hd]
          exact Nat.zero_le _
        · rw [List.mem_singleton.mp hd]
          exact Nat.le_refl _
      · intro n hn
        exact ⟨c,by simp,(Finset.mem_singleton.mp hn).symm⟩
  · obtain ⟨htake,hnext⟩ := check_tracks w a ht c
    by_cases hf : a.Fresh 64 c.toNat
    · rw [if_pos (htake.mpr hf)]
      refine .inr ⟨_,hnext,?_,?_⟩
      · intro d hd
        rw [Window.step_of_fresh hf,Window.accept_top]
        rcases List.mem_append.mp hd with hd | hd
        · exact (hle d hd).trans (Nat.le_max_left _ _)
        · rw [List.mem_singleton.mp hd]
          exact Nat.le_max_right _ _
      · intro n hn
        rcases Window.mem_step_seen hn with rfl | hn
        · exact ⟨c,by simp,rfl⟩
        · obtain ⟨d,hd,he⟩ := hseen n hn
          exact ⟨d,List.mem_append_left _ hd,he⟩
    · rw [if_neg (mt htake.mp hf)]
      rw [Window.step_of_not_fresh hf] at hnext
      exact .inr ⟨a,hnext,hle,hseen⟩

section Schedule

variable (A : Aead) (hA : A.TagLength) (tx : Session) (ms : List (Bytes × Bytes))
include hA

/-- Behind a schedule the window knows what it has opened, and each of that came in a sealed packet. -/
theorem knows_schedule (s : Session) (opened : List UInt64) (hopen : A.OpensExactly s.recv.key (sealLog A tx ms))
    (hw : Knows s.recv.window opened) (sched : List Delivery) :
    (sched.foldl (deliverStep A) s).recv.key=s.recv.key ∧
      Knows (sched.foldl (deliverStep A) s).recv.window (opened++openedCounters A s sched) ∧
      ∀c∈openedCounters A s sched,∃e∈sched,e.1∈sealedPackets A tx ms ∧ headerCounter e.1=c := by
  induction sched generalizing s opened with
  | nil =>
    refine ⟨rfl,?_,fun c hc => absurd hc List.not_mem_nil⟩
    rwa [openedCounters,List.append_nil]
  | cons d sched ih =>
    obtain ⟨hlog,hlen,-⟩ := sealed_run A hA tx ms
    obtain ⟨hok,hrecv⟩ := deliver_eq A s (sealedPackets A tx ms) (fun q hq => (hlen q hq).1)
      (by rw [← hlog]; exact hopen) d
    have hkey : (deliverStep A s d).recv.key=s.recv.key := by
      rw [hrecv]
      split <;> rfl
    have hnext : Knows (deliverStep A s d).recv.window
        (if (deliver A s d).1.isOk then opened++[headerCounter d.1] else opened) := by
      rw [hrecv]
      by_cases ha : Arrives (sealedPackets A tx ms) d
      · have hsame : (deliver A s d).1.isOk=(s.recv.window.check (headerCounter d.1)).1 := by
          rw [Bool.eq_iff_iff,hok]
          exact and_iff_right ha
        rw [if_pos ha,hsame]
        exact hw.step _
      · rw [if_neg ha,if_neg (fun h => ha (hok.mp h).1)]
        exact hw
    obtain ⟨hk,hknows,hfrom⟩ := ih _ _ (by rw [hkey]; exact hopen) hnext
    refine ⟨hk.trans hkey,?_,?_⟩
    · rw [openedCounters]
      by_cases hd : (deliver A s d).1.isOk=true
      · rw [if_pos hd] at hknows ⊢
        rwa [List.append_assoc] at hknows
      · rw [if_neg hd] at hknows ⊢
        exact hknows
    · intro c hc
      rw [openedCounters] at hc
      by_cases hd : (deliver A s d).1.isOk=true
      · rw [if_pos hd] at hc
        rcases List.mem_cons.mp hc with rfl | hc
        · exact ⟨d,List.mem_cons_self,(hok.mp hd).1.1,rfl⟩
        · obtain ⟨e,he,hp⟩ := hfrom c hc
          exact ⟨e,List.mem_cons_of_mem d he,hp⟩
      · rw [if_neg hd] at hc
        obtain ⟨e,he,hp⟩ := hfrom c hc
        exact ⟨e,List.mem_cons_of_mem d he,hp⟩

/-- A sealed packet that comes for the first time is opened exactly when nothing opened before
it is 64 or more above it. -/
theorem delivery_iff (rx : Session) (hrx : rx.recv.window=ReplayWindow.new) (hkey : rx.recv.key=tx.send.key)
    (hopen : A.OpensExactly tx.send.key (sealLog A tx ms)) (sched : List Delivery) (d : Delivery)
    (hd : Arrives (sealedPackets A tx ms) d) (hnew : ∀e∈sched,e.1≠d.1) :
    (deliver A (sched.foldl (deliverStep A) rx) d).1.isOk=true ↔
      ∀c∈openedCounters A rx sched,c.toNat < (headerCounter d.1).toNat+64 := by
  obtain ⟨hlog,hlen,-⟩ := sealed_run A hA tx ms
  have hstart : Knows rx.recv.window [] := .inl ⟨by rw [hrx]; rfl,fun c hc => absurd hc List.not_mem_nil⟩
  obtain ⟨hk,hknows,hfrom⟩ := knows_schedule A hA tx ms rx [] (by rw [hkey]; exact hopen) hstart sched
  have hok := (deliver_eq A (sched.foldl (deliverStep A) rx) (sealedPackets A tx ms) (fun q hq => (hlen q hq).1)
    (by rw [← hlog,hk,hkey]; exact hopen) d).1
  have hfresh : headerCounter d.1∉openedCounters A rx sched := by
    intro hm
    obtain ⟨e,he,hp,hc⟩ := hfrom _ hm
    exact hnew e he (sealed_counter_injective A hA tx ms e.1 d.1 hp hd.1 hc)
  rw [hok,and_iff_right hd]
  exact knows_check _ _ _ hknows hfresh

end Schedule

/-- How wide the session's window is. A packet that comes for the first time, at most 1023 below
the top, is opened unless it is more than 63 below; and the window answers as the one of 1024
numbers does unless a counter is late or a first zero comes again. -/
theorem session_window_iff (A : Aead) (hA : A.TagLength) (tx rx : Session) (hrx : rx.recv.window=ReplayWindow.new)
    (hkey : rx.recv.key=tx.send.key) (ms : List (Bytes × Bytes))
    (hopen : A.OpensExactly tx.send.key (sealLog A tx ms)) :
    (∀sched d,Arrives (sealedPackets A tx ms) d → (∀e∈sched,e.1≠d.1) →
      (∀c∈openedCounters A rx sched,c.toNat-(headerCounter d.1).toNat ≤ 1023) →
      ((deliver A (sched.foldl (deliverStep A) rx) d).1.isOk=true ↔
        ∀c∈openedCounters A rx sched,c.toNat-(headerCounter d.1).toNat ≤ 63)) ∧
    ∀cs,answers ReplayWindow.check ReplayWindow.new cs=
        answers Evidence.ReplayWindow.check Evidence.ReplayWindow.new cs ↔
      Throughout (fun before c => ¬Late before c ∧ ¬ZeroAgain before c) cs := by
  refine ⟨?_,fun cs => (verdicts_alike_iff cs).1⟩
  intro sched d hd hnew _
  rw [delivery_iff A hA tx ms rx hrx hkey hopen sched d hd hnew]
  refine forall₂_congr (fun c _ => ?_)
  omega

/-- An AEAD with tags of one value, which opens what is in its log. -/
def loggedAead (log : List Sealed) : Aead where
  encrypt := sampleEncrypt
  decrypt _ n ct ad := if ⟨n,ad,ct⟩∈log then some (ct.take (ct.length-16)) else none

/-- Empty messages, as many as are wanted. -/
def emptyMessages (n : Nat) : List (Bytes × Bytes) := List.replicate n (List.replicate 32 0,[])

def emptyLog (n : Nat) : List Sealed := sealLog ⟨sampleEncrypt,fun _ _ _ _ => none⟩ Session.new (emptyMessages n)

def emptyPacket (n i : Nat) : Delivery :=
  ((sealedPackets (loggedAead (emptyLog n)) Session.new (emptyMessages n)).getD i [],[])

/-- What is sealed depends on the encryption alone. -/
theorem sealLog_congr (A B : Aead) (h : A.encrypt=B.encrypt) (s : Session) (ms : List (Bytes × Bytes)) :
    sealLog A s ms=sealLog B s ms := by
  have hseal (s : Session) (out pt : Bytes) : s.seal A out pt=s.seal B out pt := by
    rw [seal_eq,seal_eq,h]
  induction ms generalizing s with
  | nil => rfl
  | cons m ms ih =>
    rw [sealLog,sealLog,hseal,h]
    split <;> simp only [ih]

theorem loggedAead_tagLength (log : List Sealed) : (loggedAead log).TagLength := sampleAead_tagLength

theorem loggedAead_opensExactly (n : Nat) :
    (loggedAead (emptyLog n)).OpensExactly Session.new.send.key
      (sealLog (loggedAead (emptyLog n)) Session.new (emptyMessages n)) := by
  rw [sealLog_congr (loggedAead (emptyLog n)) ⟨sampleEncrypt,fun _ _ _ _ => none⟩ rfl]
  intro nonce a ct
  show (if ⟨nonce,a,ct⟩∈emptyLog n then some (ct.take (ct.length-16)) else none).isSome ↔ ⟨nonce,a,ct⟩∈emptyLog n
  split <;> simp_all

theorem session_window_iff_sample :
    (∀sched d,Arrives (sealedPackets (loggedAead (emptyLog 65)) Session.new (emptyMessages 65)) d →
      (∀e∈sched,e.1≠d.1) →
      (∀c∈openedCounters (loggedAead (emptyLog 65)) Session.new sched,c.toNat-(headerCounter d.1).toNat ≤ 1023) →
      ((deliver (loggedAead (emptyLog 65)) (sched.foldl (deliverStep (loggedAead (emptyLog 65))) Session.new) d).1.isOk=
          true ↔
        ∀c∈openedCounters (loggedAead (emptyLog 65)) Session.new sched,c.toNat-(headerCounter d.1).toNat ≤ 63)) ∧
    ∀cs,answers ReplayWindow.check ReplayWindow.new cs=
        answers Evidence.ReplayWindow.check Evidence.ReplayWindow.new cs ↔
      Throughout (fun before c => ¬Late before c ∧ ¬ZeroAgain before c) cs :=
  session_window_iff (loggedAead (emptyLog 65)) (loggedAead_tagLength _) Session.new Session.new rfl rfl
    (emptyMessages 65) (loggedAead_opensExactly 65)

/-- Of 65 sealed packets the last comes first: the first one, 64 below it, is refused. On the same
two counters the other window takes both. -/
theorem packet_64_late_refused :
    (¬∀sched d,Arrives (sealedPackets (loggedAead (emptyLog 65)) Session.new (emptyMessages 65)) d →
      (∀e∈sched,e.1≠d.1) →
      (∀c∈openedCounters (loggedAead (emptyLog 65)) Session.new sched,c.toNat-(headerCounter d.1).toNat ≤ 1023) →
      (deliver (loggedAead (emptyLog 65)) (sched.foldl (deliverStep (loggedAead (emptyLog 65))) Session.new) d).1.isOk=
        true) ∧
    ¬∀cs,answers ReplayWindow.check ReplayWindow.new cs=
      answers Evidence.ReplayWindow.check Evidence.ReplayWindow.new cs := by
  constructor
  · intro h
    have hopened : openedCounters (loggedAead (emptyLog 65)) Session.new [emptyPacket 65 64]=[64] := by decide +kernel
    have hnear : ∀c∈openedCounters (loggedAead (emptyLog 65)) Session.new [emptyPacket 65 64],
        c.toNat-(headerCounter (emptyPacket 65 0).1).toNat ≤ 1023 := by
      intro c hc
      rw [hopened,List.mem_singleton] at hc
      rw [hc]
      exact (Nat.sub_le _ _).trans (by decide)
    have hok := h [emptyPacket 65 64] (emptyPacket 65 0) (by decide +kernel) (by decide +kernel) hnear
    have hrefused : (deliver (loggedAead (emptyLog 65))
        ([emptyPacket 65 64].foldl (deliverStep (loggedAead (emptyLog 65))) Session.new)
          (emptyPacket 65 0)).1.isOk=false := by decide +kernel
    rw [hrefused] at hok
    cases hok
  · intro h
    exact absurd (h [64,0]) (by decide)

end Delivery

end Bolina.Transport
