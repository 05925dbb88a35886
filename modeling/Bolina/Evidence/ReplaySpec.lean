import Bolina.Evidence.Replay
import Bolina.Framework.Lockstep

namespace Bolina.Evidence

open SlidingWindow Lockstep

/-- The counters that calls of the run have taken. -/
def Spent (earlier : List UInt64) (c : UInt64) : Prop :=
  Answered ReplayWindow.check ReplayWindow.new earlier c true

/-- A started window stands for an abstract one that recalls every counter put to it. -/
def Recounts (earlier : List UInt64) (a : Window) : Prop :=
  Follows (after ReplayWindow.check ReplayWindow.new earlier) a ∧
    a.Recalls (earlier.map UInt64.toNat) (fun n => ∃c,c.toNat=n ∧ Spent earlier c)

theorem recalls_congr {a : Window} {earlier : List Nat} {P Q : Nat → Prop} (h : a.Recalls earlier P)
    (hpq : ∀n,P n ↔ Q n) : a.Recalls earlier Q := ⟨h.topMem,h.largest,fun d => (h.taken d).trans (hpq d)⟩

theorem recounts_first (c : UInt64) : Recounts [c] (Window.first c.toNat) := by
  refine ⟨(follows_first c).2,recalls_congr (Window.recalls_first c.toNat) (fun n => ?_)⟩
  constructor
  · intro heq
    obtain rfl := heq
    exact ⟨c,rfl,[],[],rfl,rfl⟩
  · intro hw
    obtain ⟨d,rfl,before,rest,he,_⟩ := hw
    cases before with
    | nil => exact congrArg UInt64.toNat (List.cons.inj he).1.symm
    | cons b before => simp at he

theorem Recounts.step {earlier : List UInt64} {a : Window} (h : Recounts earlier a) (c : UInt64) :
    Recounts (earlier++[c]) (a.step windowBits c.toNat) := by
  obtain ⟨hf,hr⟩ := h
  obtain ⟨hverdict,hnext⟩ := hf.check c
  refine ⟨by rwa [after_concat],?_⟩
  rw [List.map_append]
  refine recalls_congr (hr.step windowBits c.toNat) (fun n => ?_)
  have hnew : answer ReplayWindow.check ReplayWindow.new earlier c=true ↔ a.Fresh windowBits c.toNat := by
    rw [answer,hverdict,decide_eq_true_iff]
  simp only [Spent,answered_concat,hnew]
  constructor
  · intro hw
    obtain ⟨d,hd,hs⟩ | ⟨rfl,hfresh⟩ := hw
    · exact ⟨d,hd,.inl hs⟩
    · exact ⟨c,rfl,.inr ⟨rfl,hfresh⟩⟩
  · intro hw
    obtain ⟨d,rfl,hs | ⟨rfl,hfresh⟩⟩ := hw
    · exact .inl ⟨d,rfl,hs⟩
    · exact .inr ⟨rfl,hfresh⟩

/-- After the first call the window always recounts its calls. -/
theorem recounts_run (earlier : List UInt64) (h : earlier≠[]) : ∃a,Recounts earlier a := by
  induction earlier using List.reverseRecOn with
  | nil => exact absurd rfl h
  | append_singleton earlier c ih =>
    by_cases he : earlier=[]
    · subst he
      exact ⟨_,recounts_first c⟩
    · obtain ⟨a,ha⟩ := ih he
      exact ⟨_,ha.step c⟩

/-- A call returns true for the first counter, for one above all earlier ones, and for one that is
at most 1023 below the largest and was not taken before. -/
theorem replay_check_spec (earlier : List UInt64) (c : UInt64) :
    answer ReplayWindow.check ReplayWindow.new earlier c=true ↔
      earlier=[] ∨ (∀d∈earlier,d < c) ∨
        ((∃top∈earlier,(∀d∈earlier,d ≤ top) ∧ c ≤ top ∧ top.toNat-c.toNat ≤ 1023) ∧
          ∀before rest,earlier=before++c::rest →
            answer ReplayWindow.check ReplayWindow.new before c=false) := by
  by_cases he : earlier=[]
  · subst he
    exact ⟨fun _ => .inl rfl,fun _ => rfl⟩
  obtain ⟨a,hf,hr⟩ := recounts_run earlier he
  have hverdict := (hf.check c).1
  rw [answer,hverdict,decide_eq_true_iff,hr.fresh_iff windowBits c.toNat]
  simp only [he,false_or,List.forall_mem_map]
  simp only [List.mem_map,exists_exists_and_eq_and]
  refine or_congr (forall₂_congr (fun d _ => UInt64.lt_iff_toNat_lt.symm)) (and_congr ?_ ?_)
  · refine exists_congr (fun top => and_congr Iff.rfl (and_congr ?_ (and_congr ?_ ?_)))
    · exact forall₂_congr (fun d _ => UInt64.le_iff_toNat_le.symm)
    · exact UInt64.le_iff_toNat_le.symm
    · exact Nat.lt_succ_iff
  · constructor
    · intro hn before rest hsplit
      rw [Bool.eq_false_iff]
      exact fun hb => hn ⟨c,rfl,before,rest,hsplit,hb⟩
    · intro hall hw
      obtain ⟨d,hd,before,rest,hsplit,hb⟩ := hw
      cases UInt64.toNat_inj.mp hd
      have hno := hall before rest hsplit
      rw [hb] at hno
      cases hno

end Bolina.Evidence
