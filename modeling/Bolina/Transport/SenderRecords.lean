import Bolina.Transport.DispatchRun
import Bolina.Transport.RevokedApprover

namespace Bolina.Transport

open Codec Intent GuardedRun BigEndian

/-- Sender and action of the last admission of an id. -/
def lastAdmission (intentId : FixedBytes 16) : List RunEvent → Option (Bytes × Bytes)
  | [] => none
  | .admitted j sender action::log => if j=intentId then some (sender,action) else lastAdmission intentId log
  | .received _ _::log => lastAdmission intentId log
  | .executed _ _::log => lastAdmission intentId log

/-- Every pending intent has the record of the message that admitted it. -/
def RecordsMatch (s : History) : Prop :=
  ∀intentId e,s.dispatch.intentTable.pendingEntry intentId=some e →
    ∃r,s.dispatch.senderTable.lookup intentId.toList=some r ∧
      lastAdmission intentId s.log=some (r.sender.toList,r.actionBytes)

/-- An intent that is admitted has an action that a record holds, and a record that is
there of its id says the same. -/
def Recordable (K : Crypto) (s : History) : RunStep → Prop
  | .dispatch c =>
    ∀env i canonical,Proposes K s.dispatch c.envBytes env i canonical →
      i.action.length ≤ senderMaxAction ∧
        ∀r,s.dispatch.senderTable.lookup i.intentId=some r →
          r.sender.toList=env.sender ∧ r.actionBytes=i.action
  | .expire _ => True

section Records

variable {K : Crypto} {s : History}

theorem actionBytes_length (r : SenderEntry) : r.actionBytes.length ≤ senderMaxAction := by
  rw [SenderEntry.actionBytes,List.length_take]
  exact Nat.le_trans (Nat.min_le_left _ _) r.lenLe

theorem senderRecord_sender {envBytes : Bytes} {env : Envelope} (h : Signed K envBytes env)
    (i : Codec.Intent) (hl : i.action.length ≤ senderMaxAction) :
    (senderRecord env i hl).sender.toList=env.sender := by
  have hlen : env.sender.length=32 := h.sender_length
  show (fixed 32 (if env.sender.length=32 then env.sender else [])).toList=env.sender
  rw [if_pos hlen]
  exact toList_fixed env.sender hlen

theorem senderRecord_action (env : Envelope) (i : Codec.Intent) (hl : i.action.length ≤ senderMaxAction) :
    (senderRecord env i hl).actionBytes=i.action :=
  fixed_take 512 i.action hl

/-- A message has one intent. -/
theorem Proposes.unique {d : Dispatch} {envBytes : Bytes} {env env' : Envelope} {i i' : Codec.Intent}
    {canonical canonical' : Bytes} (h : Proposes K d envBytes env i canonical)
    (h' : Proposes K d envBytes env' i' canonical') : env'=env ∧ i'=i := by
  have he := h'.signed.unique h.signed
  have hi := h'.parses
  rw [he,h.parses] at hi
  cases hi
  exact ⟨he,rfl⟩

/-- The records of a step that admits nothing. -/
theorem recordsMatch_mono (d : Dispatch) (log : List RunEvent) (hs : RecordsMatch s)
    (hsenders : d.senderTable=s.dispatch.senderTable)
    (hpend : ∀j e,d.intentTable.pendingEntry j=some e → s.dispatch.intentTable.pendingEntry j=some e)
    (hlast : ∀j,lastAdmission j log=lastAdmission j s.log) : RecordsMatch ⟨d,log⟩ := by
  intro j e he
  obtain ⟨r,hr,hlog⟩ := hs j e (hpend j e he)
  exact ⟨r,by rw [← hr,← hsenders],by rw [← hlog,← hlast j]⟩

theorem lastAdmission_received (j : FixedBytes 16) (gs : List Grant) (nowMs : UInt64) (log : List RunEvent) :
    lastAdmission j (gs.map (fun g => RunEvent.received g nowMs)++log)=lastAdmission j log := by
  induction gs with
  | nil => rfl
  | cons g gs ih => exact ih

section Admission

variable {c : Call} {env : Envelope} {i : Codec.Intent} {canonical : Bytes}

theorem recordable_iff (h : Proposes K s.dispatch c.envBytes env i canonical) :
    Recordable K s (.dispatch c) ↔ i.action.length ≤ senderMaxAction ∧
      ∀r,s.dispatch.senderTable.lookup i.intentId=some r → r.sender.toList=env.sender ∧ r.actionBytes=i.action := by
  constructor
  · exact fun hg => hg env i canonical h
  · intro hg env' i' canonical' h'
    obtain ⟨he,hi⟩ := h.unique h'
    rw [he,hi]
    exact hg

theorem lastAdmission_admitted : lastAdmission (fixed 16 i.intentId)
    (.admitted (fixed 16 i.intentId) env.sender i.action::s.log)=some (env.sender,i.action) := if_pos rfl

/-- With its record an admission keeps the records in step exactly when a record that
is there says the same. -/
theorem recordsMatch_of_record (hs : RecordsMatch s) (h : Proposes K s.dispatch c.envBytes env i canonical)
    (hl : i.action.length ≤ senderMaxAction) :
    RecordsMatch ⟨(s.dispatch.admitted i c.nowMs).record (senderRecord env i hl),
        .admitted (fixed 16 i.intentId) env.sender i.action::s.log⟩ ↔
      ∀r,s.dispatch.senderTable.lookup i.intentId=some r → r.sender.toList=env.sender ∧ r.actionBytes=i.action := by
  have hid : (fixed 16 i.intentId).toList=i.intentId := toList_fixed i.intentId h.width
  have hpend : ∀j,((s.dispatch.admitted i c.nowMs).record (senderRecord env i hl)).intentTable.pendingEntry j=
      if j=fixed 16 i.intentId then
        some (admittedEntry (fixed 16 i.intentId) canonical h.admissible.fits c.nowMs)
      else s.dispatch.intentTable.pendingEntry j := admitted_pendingEntry h
  have hlook : ∀x,((s.dispatch.admitted i c.nowMs).record (senderRecord env i hl)).senderTable.lookup x=
      (s.dispatch.senderTable.lookup x).or
        (if (fixed 16 i.intentId).toList=x then some (senderRecord env i hl) else none) := lookup_record _
  constructor
  · intro hm r hr
    obtain ⟨r',hr',hlog⟩ := hm (fixed 16 i.intentId) _ ((hpend _).trans (if_pos rfl))
    rw [hlook,hid,hr] at hr'
    cases hr'
    rw [lastAdmission_admitted] at hlog
    obtain ⟨hsender,haction⟩ := Prod.mk.inj (Option.some.inj hlog)
    exact ⟨hsender.symm,haction.symm⟩
  · intro hrec j e he
    rw [hpend] at he
    by_cases hj : j=fixed 16 i.intentId
    · subst hj
      rw [hlook,hid,lastAdmission_admitted]
      cases hr : s.dispatch.senderTable.lookup i.intentId with
      | some r =>
        obtain ⟨hsender,haction⟩ := hrec r hr
        exact ⟨r,rfl,by rw [hsender,haction]⟩
      | none =>
        rw [if_pos rfl]
        refine ⟨_,rfl,?_⟩
        rw [senderRecord_sender h.signed,senderRecord_action]
    · rw [if_neg hj] at he
      obtain ⟨r,hr,hlog⟩ := hs j e he
      have hne : ¬fixed 16 i.intentId=j := fun h => hj h.symm
      refine ⟨r,?_,?_⟩
      · rw [hlook,hr]
        rfl
      · rw [← hlog]
        exact if_neg hne

/-- An entry whose action no record holds is out of step. -/
theorem not_recordsMatch_of_oversized (h : Proposes K s.dispatch c.envBytes env i canonical)
    (hl : ¬i.action.length ≤ senderMaxAction) :
    ¬RecordsMatch ⟨s.dispatch.admitted i c.nowMs,.admitted (fixed 16 i.intentId) env.sender i.action::s.log⟩ := by
  intro hm
  obtain ⟨r,_,hlog⟩ := hm (fixed 16 i.intentId) _ ((admitted_pendingEntry h _).trans (if_pos rfl))
  rw [lastAdmission_admitted] at hlog
  obtain ⟨_,haction⟩ := Prod.mk.inj (Option.some.inj hlog)
  rw [haction] at hl
  exact hl (actionBytes_length r)

/-- An admission keeps the records in step exactly when it can be recorded. -/
theorem recordsMatch_of_proposes (hs : RecordsMatch s) (h : Proposes K s.dispatch c.envBytes env i canonical) :
    RecordsMatch (s.step K (.dispatch c)) ↔ Recordable K s (.dispatch c) := by
  rw [step_of_proposes h,recordable_iff h]
  by_cases hl : i.action.length ≤ senderMaxAction
  · rw [dif_pos hl,recordsMatch_of_record hs h hl]
    exact ⟨fun hg => ⟨hl,hg⟩,fun hg => hg.2⟩
  · rw [dif_neg hl]
    constructor
    · exact fun hm => absurd hm (not_recordsMatch_of_oversized h hl)
    · exact fun hg => absurd hg.1 hl

end Admission

theorem recordsMatch_step (s : History) (x : RunStep) (hs : RecordsMatch s) :
    RecordsMatch (s.step K x) ↔ Recordable K s x := by
  cases x with
  | expire nowMs =>
    refine ⟨fun _ => trivial,fun _ => ?_⟩
    rw [History.step,Table.expireTimeouts]
    split_ifs
    · exact hs
    · refine recordsMatch_mono _ _ hs rfl ?_ (fun _ => rfl)
      intro j e he
      exact ((pendingEntry_expired _ nowMs j e).mp he).1
  | dispatch c =>
    cases happens K s.dispatch c.envBytes c.hooks c.nowMs [] with
    | proposes env i canonical h => exact recordsMatch_of_proposes hs h
    | executes g h =>
      rw [step_of_executes h]
      refine ⟨fun _ env i canonical hp => ?_,fun _ => ?_⟩
      · exact absurd hp (not_proposes_of_executes h env i canonical)
      · exact recordsMatch_mono _ _ hs rfl (fun _ _ he => he) (fun _ => rfl)
    | refuses env refusal cert h =>
      rw [step_of_refuses h]
      refine ⟨fun _ env i canonical hp => ?_,fun _ => ?_⟩
      · exact absurd hp (not_proposes_of_refuses h env i canonical)
      · refine recordsMatch_mono _ _ hs rfl ?_ (fun _ => rfl)
        intro j e he
        rw [Dispatch.withdrawn,pendingEntry_applyRefusal] at he
        split at he
        · cases he
        · exact he
    | idle hp hx hr =>
      rw [step_of_idle hp hx hr]
      refine ⟨fun _ env i canonical h => absurd h (hp env i canonical),fun _ => ?_⟩
      exact recordsMatch_mono _ _ hs rfl (fun _ _ he => he) (fun j => lastAdmission_received j _ _ _)

/-- Along a run from empty tables the sender table answers for the pending intents
exactly as long as every admission can be recorded. -/
theorem records_match_iff (K : Crypto) (resolver : Resolver) (ownPubkey : Bytes) (steps : List RunStep) :
    Always (History.step K) RecordsMatch (History.start resolver ownPubkey) steps ↔
      Meets (History.step K) (Recordable K) (History.start resolver ownPubkey) steps := by
  have hstart : RecordsMatch (History.start resolver ownPubkey) := by
    intro j e he
    cases he
  exact @always_iff_meets _ _ (History.step K) (Recordable K) RecordsMatch (fun _ => True)
    (fun _ _ _ => trivial) (fun s x _ hs => recordsMatch_step s x hs) _ steps trivial hstart

end Records

/-- The same intent id again, for another action. -/
def secondIntentEnvelope : Envelope :=
  let e := unsignedEnvelope 5 bodyIntent (encodeIntent { sampleIntent with action := [8] })
  { e with
    tbs := encodeEnvelope e
    sig := beBytes 32 0x469867a6e444bdfc3d7d6a73aee7e8c48ac0cb93139bb0f5cbab5f7d035daa3d++
      beBytes 32 0x5dbaae00069845522b167ece3c6c881fcd155816593de37c862d4e145af5ab0c }

def renewedCrypto : Crypto :=
  signing refusalCrypto [(peerKey,domainEnvelope::secondIntentEnvelope.tbs,secondIntentEnvelope.sig)]

/-- An intent, its refusal, and the same id for another action. -/
def renewedSteps : List RunStep :=
  [.dispatch (sampleCall (encodeEnvelope intentEnvelope) 1000000),
    .dispatch (sampleCall (encodeEnvelope refusalEnvelope) 1000001),
    .dispatch (sampleCall (encodeEnvelope secondIntentEnvelope) 1000002)]

def renewedHistory : History := renewedSteps.foldl (History.step renewedCrypto) sampleHistory

/-- The record of the refused intent answers for the pending one. -/
theorem stale_record_found :
    ¬Always (History.step renewedCrypto) RecordsMatch sampleHistory renewedSteps := by
  intro h
  have hlast := always_foldl sampleHistory renewedSteps h
  have hpend : (renewedHistory.dispatch.intentTable.pendingEntry (fixed 16 sampleIntent.intentId)).isSome=true := by
    decide +kernel
  have hlook : (renewedHistory.dispatch.senderTable.lookup (fixed 16 sampleIntent.intentId).toList).map
      SenderEntry.actionBytes=some [7] := by decide +kernel
  have hlog : (lastAdmission (fixed 16 sampleIntent.intentId) renewedHistory.log).map Prod.snd=some [8] := by
    decide +kernel
  obtain ⟨e,he⟩ := Option.isSome_iff_exists.mp hpend
  obtain ⟨r,hr,hadm⟩ := hlast _ e he
  have hr' : renewedHistory.dispatch.senderTable.lookup (fixed 16 sampleIntent.intentId).toList=some r := hr
  have hadm' : lastAdmission (fixed 16 sampleIntent.intentId) renewedHistory.log=
      some (r.sender.toList,r.actionBytes) := hadm
  rw [hr'] at hlook
  rw [hadm'] at hlog
  have hseven : r.actionBytes=[7] := Option.some.inj hlook
  have height : r.actionBytes=[8] := Option.some.inj hlog
  rw [hseven] at height
  cases height

end Bolina.Transport
