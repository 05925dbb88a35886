import Bolina.Framework.Lockstep
import Bolina.Transport.ReassemblyState

namespace Bolina.Reassembly

open Panic Lockstep
open Evidence (windowBits)

/-- The last update is ahead of the clock, and not by so much that the age wraps
around to less than the timeout. -/
def Context.Ahead (c : Context) (nowMs : UInt64) : Prop :=
  nowMs.toNat < c.updatedMs.toNat ∧ c.updatedMs.toNat+incompleteTimeoutMs.toNat ≤ nowMs.toNat+wordLimit

theorem expired_iff (c : Context) (nowMs : UInt64) :
    c.expired nowMs=true ↔ c.updatedMs.toNat+incompleteTimeoutMs.toNat ≤ nowMs.toNat ∨ c.Ahead nowMs := by
  have hnow := nowMs.toNat_lt
  have hupdated := c.updatedMs.toNat_lt
  have htimeout : incompleteTimeoutMs.toNat=30000 := rfl
  rw [Context.expired,decide_eq_true_iff,UInt64.le_iff_toNat_le,UInt64.toNat_sub,Context.Ahead,htimeout,wordLimit]
  omega

section Safe

variable {maxContexts : Nat} (maxFragments : Nat) (s : PeerReassembler maxContexts)

/-- The call does not panic, and a sweep frees what is old enough and nothing else. -/
def StepSafe : Call → Prop
  | .ingest nowMs msgId index total fragBytes =>
    (s.ingest maxFragments nowMs msgId index total fragBytes).isSome=true
  | .evictExpired nowMs => ∃s',s.evictExpired nowMs=some s' ∧ ∀i,
    ((s.contexts i).inUse=true ∧ (s.contexts i).updatedMs.toNat+incompleteTimeoutMs.toNat ≤ nowMs.toNat →
      s'.contexts i={ s.contexts i with inUse := false }) ∧
    (¬((s.contexts i).inUse=true ∧ (s.contexts i).updatedMs.toNat+incompleteTimeoutMs.toNat ≤ nowMs.toNat) →
      s'.contexts i=s.contexts i)

def InReach : Call → Prop
  | .ingest _ msgId index total fragBytes => Spared maxFragments s msgId index total fragBytes
  | .evictExpired nowMs => ∀i,(s.contexts i).inUse=true → ¬(s.contexts i).Ahead nowMs

variable {maxFragments s}

theorem swept_exact (c : Context) (nowMs : UInt64) :
    ((c.inUse=true ∧ c.updatedMs.toNat+incompleteTimeoutMs.toNat ≤ nowMs.toNat → c.swept nowMs={ c with inUse := false }) ∧
    (¬(c.inUse=true ∧ c.updatedMs.toNat+incompleteTimeoutMs.toNat ≤ nowMs.toNat) → c.swept nowMs=c)) ↔
      (c.inUse=true → ¬c.Ahead nowMs) := by
  have hexp := expired_iff c nowMs
  by_cases hin : c.inUse=true
  · by_cases hold : c.updatedMs.toNat+incompleteTimeoutMs.toNat ≤ nowMs.toNat
    · have hahead : ¬c.Ahead nowMs := by
        rw [Context.Ahead]
        omega
      have hsweep : c.swept nowMs={ c with inUse := false } := by
        rw [Context.swept,hin,hexp.mpr (.inl hold)]
        rfl
      exact iff_of_true ⟨fun _ => hsweep,fun hno => absurd ⟨hin,hold⟩ hno⟩ (fun _ => hahead)
    · rw [or_iff_right hold] at hexp
      by_cases hahead : c.Ahead nowMs
      · have hsweep : c.swept nowMs={ c with inUse := false } := by
          rw [Context.swept,hin,hexp.mpr hahead]
          rfl
        refine iff_of_false ?_ (fun hno => hno hin hahead)
        intro hexact
        have hsame : ({ c with inUse := false } : Context)=c := hsweep.symm.trans (hexact.2 (fun hw => hold hw.2))
        exact Bool.false_ne_true ((congrArg Context.inUse hsame).trans hin)
      · have hsweep : c.swept nowMs=c := by
          rw [Context.swept,hin,Bool.true_and,if_neg (hexp.not.mpr hahead)]
        exact iff_of_true ⟨fun hw => absurd hw.2 hold,fun _ => hsweep⟩ (fun _ => hahead)
  · have hsweep : c.swept nowMs=c := by simp [Context.swept,hin]
    exact iff_of_true ⟨fun hw => absurd hw.1 hin,fun _ => hsweep⟩ (fun hc => absurd hc hin)

theorem Sound.stepSafe_iff (h : Sound maxFragments s) (call : Call) :
    StepSafe maxFragments s call ↔ InReach maxFragments s call := by
  cases call with
  | ingest nowMs msgId index total fragBytes =>
    rw [StepSafe,InReach]
    constructor
    · intro hsome
      by_contra hs
      rw [h.ingest_none nowMs hs] at hsome
      exact Bool.false_ne_true hsome
    · intro hs
      obtain ⟨e,s',hrun,_⟩ := h.ingest nowMs hs
      rw [hrun]
      rfl
  | evictExpired nowMs =>
    obtain ⟨s₁,hrun,_,hat⟩ := h.evictExpired nowMs
    rw [StepSafe,InReach]
    constructor
    · intro hsafe i
      obtain ⟨s',hrun',hexact⟩ := hsafe
      obtain rfl := Option.some.inj (hrun.symm.trans hrun')
      rw [← swept_exact,← hat i]
      exact hexact i
    · intro hreach
      refine ⟨s₁,hrun,?_⟩
      intro i
      rw [hat i]
      exact (swept_exact (s.contexts i) nowMs).mpr (hreach i)

theorem StepSafe.some {call : Call} (h : StepSafe maxFragments s call) : ∃s',s.act maxFragments call=some s' := by
  cases call with
  | ingest nowMs msgId index total fragBytes =>
    obtain ⟨r,hr⟩ := Option.isSome_iff_exists.mp h
    exact ⟨r.2,by rw [PeerReassembler.act,hr]; rfl⟩
  | evictExpired nowMs =>
    obtain ⟨s',hrun,_⟩ := h
    exact ⟨s',hrun⟩

theorem runs_concat (calls : List Call) (call : Call) :
    s.runs maxFragments (calls++[call])=(s.runs maxFragments calls).bind (fun s => s.act maxFragments call) := by
  rw [PeerReassembler.runs,List.foldlM_append,PeerReassembler.runs,Option.bind_eq_bind]
  congr 1
  funext t
  rw [List.foldlM_cons]
  exact bind_pure _

/-- A run whose calls are all safe is one whose calls are all in reach. -/
theorem safe_run_iff (h : Sound maxFragments s) (calls : List Call) :
    Throughout (fun before call => ∃t,s.runs maxFragments before=some t ∧ StepSafe maxFragments t call) calls ↔
      Throughout (fun before call => ∀t,s.runs maxFragments before=some t → InReach maxFragments t call) calls := by
  have hstep (before : List Call) (call : Call) (hbefore : ∃t,s.runs maxFragments before=some t) :
      (∃t,s.runs maxFragments before=some t ∧ StepSafe maxFragments t call) ↔
        ∀t,s.runs maxFragments before=some t → InReach maxFragments t call := by
    obtain ⟨t,ht⟩ := hbefore
    have hsafe := (h.runs ht).stepSafe_iff call
    simp only [ht,Option.some.injEq,exists_eq_left',forall_eq']
    exact hsafe
  have hreaches (calls : List Call)
      (hc : Throughout (fun before call => ∃t,s.runs maxFragments before=some t ∧ StepSafe maxFragments t call) calls) :
      ∃t,s.runs maxFragments calls=some t := by
    rcases List.eq_nil_or_concat' calls with rfl | ⟨before,call,rfl⟩
    · exact ⟨s,rfl⟩
    · obtain ⟨t,ht,hsafe⟩ := ((throughout_concat _ before call).mp hc).2
      obtain ⟨s',hs'⟩ := hsafe.some
      exact ⟨s',by rw [runs_concat,ht]; exact hs'⟩
  induction calls using List.reverseRecOn with
  | nil => exact iff_of_true (throughout_nil _) (throughout_nil _)
  | append_singleton before call ih =>
    rw [throughout_concat,throughout_concat]
    exact (and_congr_right (fun hbefore => hstep before call (hreaches before hbefore))).trans
      (and_congr_left (fun _ => ih))

end Safe

theorem reassembly_safe_iff (maxContexts maxFragments : Nat) :
    (∀calls s,(PeerReassembler.new maxContexts).runs maxFragments calls=some s →
      ∀call,StepSafe maxFragments s call ↔ InReach maxFragments s call) ∧
    ∀calls,
      Throughout (fun before call => ∃s,(PeerReassembler.new maxContexts).runs maxFragments before=some s ∧
        StepSafe maxFragments s call) calls ↔
      Throughout (fun before call => ∀s,(PeerReassembler.new maxContexts).runs maxFragments before=some s →
        InReach maxFragments s call) calls :=
  ⟨fun _ _ hrun => ((sound_new maxContexts).runs hrun).stepSafe_iff,safe_run_iff (sound_new maxContexts)⟩

/-- The second fragment of a long message is past the map, and a sweep one
millisecond before an update frees the context. -/
theorem fragment_1024_panics :
    (PeerReassembler.new 8).ingest 2000 0 7 1024 1500 10=none ∧
    ((PeerReassembler.new 8).runs 1024 [.ingest 100 7 0 2 10,.evictExpired 99]).map
      (fun s => (s.active,(s.contexts 0).inUse))=some (0,false) := by
  decide

end Bolina.Reassembly
