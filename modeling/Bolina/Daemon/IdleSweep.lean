import Bolina.Daemon.Establishment
import Bolina.Framework.SinceLog

namespace Bolina

open BigEndian Codec State Transport Noise GuardedRun SinceLog
open Handshake (Slot tHsIdleMs)

/-- The slot changes hands: it is committed or released. -/
def turnsOver (i : Slot) (entry : UInt64 × Act) : Bool := entry.2==.committed i || entry.2==.released i

/-- The session of the slot opened an authentic packet within the timeout before `now`. -/
def Active (log : Log) (i : Slot) (now : UInt64) : Prop :=
  ∃time,(time,Act.opened (UInt32.ofNat i))∈since (turnsOver i) log ∧ time ≤ now ∧
    now.toNat-time.toNat ≤ tHsIdleMs.toNat

/-- A sweep frees no active slot. -/
def Spares : Option (Endpoint × Log) → Input → Prop
  | some (e,log),.sweep now => ∀i,Active log i now → i∉(e.releaseStaleSlots now).1
  | _,_ => True

/-- A sweep finds no active slot that was committed longer than the timeout ago. -/
def Young : Option (Endpoint × Log) → Input → Prop
  | some (_,log),.sweep now => ∀i,Active log i now →
      ∀time,lastReset (turnsOver i) log=some (time,.committed i) → now.toNat-time.toNat ≤ tHsIdleMs.toNat
  | _,_ => True

/-- The table holds the time of the last commit of every slot it occupies, and a free
slot has opened nothing since it turned over. -/
structure Dated (t : Tables) (log : Log) : Prop where
  held : ∀i s,t.hs.slots i=some s → lastReset (turnsOver i) log=some (s.createdMs,.committed i)
  free : ∀i,t.hs.slots i=none → ∀time,(time,Act.opened (UInt32.ofNat i))∉since (turnsOver i) log

section Dated

variable {S : Suite} {A : Aead} {keys : Keys} {t t' : Tables} {x : Input} {log : Log}

theorem quiet_of_stays {acts : List Act} {i : Slot} (now : UInt64) (hc : Act.committed i∉acts)
    (hr : Act.released i∉acts) : ∀a∈(acts.map (fun a => (now,a))).reverse,turnsOver i a=false := by
  intro ⟨time,a⟩ ha
  obtain ⟨_,hb⟩ := mem_entries.mp ha
  rw [turnsOver,Bool.or_eq_false_iff,beq_eq_false_iff_ne,beq_eq_false_iff_ne]
  constructor
  · intro heq
    obtain rfl := heq
    exact hc hb
  · intro heq
    obtain rfl := heq
    exact hr hb

/-- A slot that a step neither commits nor releases keeps its date. -/
theorem Dated.stays (hd : Dated t log) {acts : List Act} {i : Slot} (hc : Act.committed i∉acts)
    (hr : Act.released i∉acts) (hs : t'.hs.slots i=t.hs.slots i)
    (ho : t.hs.slots i=none → Act.opened (UInt32.ofNat i)∉acts) (now : UInt64) :
    (∀s,t'.hs.slots i=some s →
      lastReset (turnsOver i) ((acts.map (fun a => (now,a))).reverse++log)=some (s.createdMs,.committed i)) ∧
    (t'.hs.slots i=none →
      ∀time,(time,Act.opened (UInt32.ofNat i))∉since (turnsOver i) ((acts.map (fun a => (now,a))).reverse++log)) := by
  have hq := quiet_of_stays now hc hr
  rw [hs,lastReset_quiet hq,since_quiet hq]
  refine ⟨hd.held i,?_⟩
  intro hn time hm
  rcases List.mem_append.mp hm with hm | hm
  · exact ho hn (mem_entries.mp hm).2
  · exact hd.free i hn time hm

/-- A session in use belongs to an occupied slot. -/
theorem InStep.occupied (hi : InStep t) {i : Slot} {s : Transport.Session}
    (h : t.sessions.lookup (UInt32.ofNat i)=some s) : t.hs.slots i≠none := by
  intro hn
  have ha := hi.agree i
  rw [hn] at ha
  rw [ha.of_free.1] at h
  cases h

theorem Effect.dated {acts : List Act} (hi : InStep t) (hd : Dated t log) (h : Effect S keys t x t' acts) :
    Dated t' ((acts.map (fun a => (x.now,a))).reverse++log) := by
  suffices hall : ∀i,(∀s,t'.hs.slots i=some s →
      lastReset (turnsOver i) ((acts.map (fun a => (x.now,a))).reverse++log)=some (s.createdMs,.committed i)) ∧
      (t'.hs.slots i=none → ∀time,(time,Act.opened (UInt32.ofNat i))∉
        since (turnsOver i) ((acts.map (fun a => (x.now,a))).reverse++log)) from
    ⟨fun i => (hall i).1,fun i => (hall i).2⟩
  intro i
  cases h with
  | idle sent => exact hd.stays (by simp) (by simp) rfl (by simp) x.now
  | opens idx s recv acts found key shown =>
    have hown : t.hs.slots i=none → UInt32.ofNat i≠idx := by
      intro hn heq
      obtain rfl := heq
      exact hi.occupied found hn
    rcases shown with rfl | rfl
    · exact hd.stays (by simp) (by simp) rfl (by simp) x.now
    · exact hd.stays (by simp) (by simp) rfl (fun hn => by simpa using hown hn) x.now
  | binds s recv call found key verified =>
    have hown : t.hs.slots i=none → UInt32.ofNat i≠call.index := by
      intro hn he
      rw [← he] at found
      exact hi.occupied found hn
    exact hd.stays (by simp) (by simp) rfl (fun hn => by simpa using hown hn) x.now
  | commits j s later out free created =>
    by_cases hij : i=j
    · rw [hij]
      constructor
      · intro r hr
        have hr' : r=s := by simpa using hr.symm
        rw [hr',created]
        exact lastReset_reset (by simp [turnsOver])
      · intro hn
        simp at hn
    · exact hd.stays (by simp [hij]) (by simp) (Function.update_of_ne hij _ _) (by simp) x.now
  | sweeps now _ freed swept stale frees =>
    by_cases him : i∈freed
    · rw [frees.hs i,if_pos him]
      constructor
      · intro s hs
        cases hs
      · intro _ time hm
        have hnew : (x.now,Act.released i)∈((freed.map Act.released).map (fun a => (x.now,a))).reverse :=
          mem_entries.mpr ⟨rfl,List.mem_map_of_mem him⟩
        have hin := mem_since_cut hnew (by simp [turnsOver]) hm
        simp at hin
    · exact hd.stays (by simp) (by simpa using him) (by rw [frees.hs i,if_neg him]) (by simp) x.now

/-- What every state of a run keeps, for the sweep to be judged by the log. -/
def Judged (o : Option (Endpoint × Log)) : Prop := ∀e log,o=some (e,log) → InStep e.tables ∧ Dated e.tables log

theorem judged_advance (o : Option (Endpoint × Log)) (x : Input) (h : Judged o) : Judged (advance S A keys o x) := by
  intro e' log' he'
  obtain ⟨e,log,acts,rfl,hs,rfl⟩ := advance_some he'
  obtain ⟨hi,hd⟩ := h e log rfl
  have heff := step_effect hi hs
  exact ⟨heff.inStep hi,heff.dated hi hd⟩

/-- A slot is freed exactly when it was committed longer than the timeout ago. -/
theorem freed_iff {e : Endpoint} {i : Slot} {now : UInt64} :
    i∈(e.releaseStaleSlots now).1 ↔ ∃s,e.hs.slots i=some s ∧ tHsIdleMs.toNat < now.toNat-s.createdMs.toNat := by
  have hm : i∈(e.releaseStaleSlots now).1 ↔ e.hs.stale now tHsIdleMs i=true := by
    simp [Endpoint.releaseStaleSlots,Handshake.Table.releaseStale]
  rw [hm,Handshake.Table.stale]
  cases e.hs.slots i with
  | none => simp
  | some s => simp

theorem spares_iff_young (o : Option (Endpoint × Log)) (x : Input) (h : Judged o) : Spares o x ↔ Young o x := by
  cases o with
  | none => exact Iff.rfl
  | some r =>
    obtain ⟨e,log⟩ := r
    obtain ⟨_,hd⟩ := h e log rfl
    cases x with
    | datagram pkt out => exact Iff.rfl
    | sweep now =>
      apply forall_congr'
      intro i
      apply imp_congr_right
      intro hact
      obtain ⟨time,hm,_,_⟩ := hact
      rw [freed_iff]
      cases hs : e.hs.slots i with
      | none => exact absurd hm (hd.free i hs time)
      | some s =>
        have hlast := hd.held i s hs
        constructor
        · intro hn time' hl
          have he : s.createdMs=time' := by
            rw [hlast] at hl
            cases hl
            rfl
          rw [← he]
          by_contra hlate
          exact hn ⟨s,rfl,by omega⟩
        · intro hy hw
          obtain ⟨s',hs',hlate⟩ := hw
          cases hs'
          have hyoung := hy _ hlast
          omega

end Dated

/-- The sweeps of a run free no active slot exactly when they find none that was
committed longer than the timeout ago: what is measured is the age, not the silence. -/
theorem sweep_spares_iff (S : Suite) (A : Aead) (keys : Keys) (resolver : Resolver) (ledger : Option GrantLedger)
    (disk : Disk) (xs : List Input) :
    Meets (advance S A keys) Spares (some (Endpoint.boot S keys resolver ledger disk,[])) xs ↔
      Meets (advance S A keys) Young (some (Endpoint.boot S keys resolver ledger disk,[])) xs := by
  apply meets_congr judged_advance spares_iff_young
  intro e log he
  cases he
  refine ⟨inStep_boot S keys resolver ledger disk,?_,?_⟩
  · intro i s hs
    cases hs
  · intro i _ time hm
    cases hm

section Sample

/-- The first packet of the sample initiator is opened and refused as a binding. -/
theorem sample_packet :
    ∃pkt e,(engagedEndpoint 0).step sampleSuite chachaPoly responderKeys (.datagram pkt (sampleOutside 900000))=
      some (e,[.opened 0]) ∧ e.hs=(engagedEndpoint 0).hs := by
  obtain ⟨pkt,window,_,hstep⟩ := @first_packet sampleSuite chachaPoly responderKeys bootedEndpoint
    (sampleOutside 900000) [] sampleSuite_laws chachaPoly_correct _ _ _ sample_nonzero 7 0 1700000000000 0 0
    (Nat.zero_le _)
  rw [Endpoint.handleBinding,if_pos (by simp)] at hstep
  exact ⟨pkt,_,hstep,rfl⟩

/-- A packet that opens at the daemon 900 seconds after the commit does not keep the
session: a sweep one millisecond later frees its slot. -/
theorem active_session_swept :
    ∃pkt e,runFrom sampleSuite chachaPoly responderKeys bootedEndpoint
        [.datagram (sampleInitiation 7) (sampleOutside 0),.datagram pkt (sampleOutside 900000)]=
          some (e,[(900000,.opened 0),(0,.committed 0),(0,.sent (sampleAnswer 7))]) ∧
      0∈(e.releaseStaleSlots 900001).1 ∧
      ¬Meets (advance sampleSuite chachaPoly responderKeys) Spares (some (bootedEndpoint,[]))
        [.datagram (sampleInitiation 7) (sampleOutside 0),.datagram pkt (sampleOutside 900000),.sweep 900001] := by
  obtain ⟨pkt,e,hstep,hhs⟩ := sample_packet
  have hrun := runFrom_snoc (sample_run 7 0) hstep
  have hfreed : 0∈(e.releaseStaleSlots 900001).1 := by
    rw [freed_iff,hhs]
    refine ⟨_,commit_slot bootedEndpoint 0 _ 0,?_⟩
    change tHsIdleMs.toNat < (900001 : UInt64).toNat-(0 : UInt64).toNat
    decide
  refine ⟨pkt,e,hrun,hfreed,?_⟩
  intro h
  have hlast := ((meets_append _ ([Input.datagram (sampleInitiation 7) (sampleOutside 0)]++
    [Input.datagram pkt (sampleOutside 900000)]) [Input.sweep 900001]).mp h).2
  rw [runFrom] at hrun
  rw [hrun] at hlast
  refine hlast.1 0 ⟨900000,?_,by decide,by decide⟩ hfreed
  simp [since,turnsOver,Input.now,sampleOutside]

end Sample

end Bolina
