import Bolina.Control.RouteHttp
import Bolina.Framework.GuardedRun
import Bolina.State.IntentRun

namespace Bolina.Control

open Codec Intent Utf8 GuardedRun

/-- What last happened to an id. -/
inductive Fate where
  | admitted
  | rejected
  | expired
  deriving DecidableEq

/-- The table with the history of every id. -/
structure Journal where
  table : Table
  fate : FixedBytes 16 → Option Fate

def Journal.new : Journal := ⟨Table.new,fun _ => none⟩

/-- The fates after a call: an admission, an applied refusal and a sweep that removes the pending
entry of an id each set its fate. -/
def Journal.next (j : Journal) (op : TableOp) (id : FixedBytes 16) : Option Fate :=
  match op with
  | .admission intentId resource resourceLen hlen nowMs =>
    if id=intentId ∧ ( j.table.admit intentId resource resourceLen hlen nowMs).1=.ok () then some .admitted
    else j.fate id
  | .applyRefusal intentId =>
    if id=intentId ∧ (j.table.applyRefusal intentId).1=.Rejected then some .rejected else j.fate id
  | .expireTimeouts nowMs =>
    if j.table.entries.any (fun e => e.timedOut nowMs && e.intentId==id) then some .expired else j.fate id
  | _ => j.fate id

def Journal.act (j : Journal) (op : TableOp) : Option Journal :=
  (j.table.act op).map (fun t => ⟨t,j.next op⟩)

/-- A run goes on while its calls return. -/
def Journal.step (s : Option Journal) (op : TableOp) : Option Journal := s.bind (fun j => j.act op)

/-- The answers that a client is promised: a refused id is rejected, a removed one expired, and only
an id that was never admitted is not found. -/
structure Journal.Reports (j : Journal) : Prop where
  rejected : ∀idBytes : FixedBytes 32,j.fate (fixed 16 (idBytes.toList.take lenIntentId))=some .rejected →
    getIntentState idBytes.toList j.table=.ok (ascii "rejected")
  expired : ∀idBytes : FixedBytes 32,j.fate (fixed 16 (idBytes.toList.take lenIntentId))=some .expired →
    getIntentState idBytes.toList j.table=.ok (ascii "expired")
  notFound : ∀idBytes : FixedBytes 32,getIntentState idBytes.toList j.table=.error .NotFound →
    j.fate (fixed 16 (idBytes.toList.take lenIntentId))=none

/-- The call takes an intent to a terminal state: a refusal that matches, a sweep that finds one
timed out. -/
def Ends (t : Table) (op : TableOp) : Prop :=
  (∃intentId,op=.applyRefusal intentId ∧ (t.matchForGrant intentId).isSome) ∨
    ∃nowMs,op=.expireTimeouts nowMs ∧ 0 < t.collapsed nowMs ∧ (t.expireTimeouts nowMs).isSome

section Status

/-- A live table reports no terminal state. -/
theorem getIntentState_live (t : Table) (hlive : ∀e∈t.entries,e.state=.Pending ∨ e.state=.Executing)
    (idBytes : Bytes) : getIntentState idBytes t≠.ok (ascii "rejected") ∧
      getIntentState idBytes t≠.ok (ascii "expired") := by
  rw [getIntentState]
  cases hf : t.entries.find? (fun e => e.intentId==fixed 16 (idBytes.take lenIntentId)) with
  | none => simp
  | some e =>
    obtain hp | hx := hlive e (List.mem_of_find?_eq_some hf)
    · simp only [hp]
      decide
    · simp only [hx]
      decide

theorem getIntentState_notFound (t : Table) (idBytes : Bytes) :
    getIntentState idBytes t=.error .NotFound ↔ ∀e∈t.entries,e.intentId≠fixed 16 (idBytes.take lenIntentId) := by
  rw [getIntentState]
  cases hf : t.entries.find? (fun e => e.intentId==fixed 16 (idBytes.take lenIntentId)) with
  | none =>
    refine ⟨fun _ e he hid => ?_,fun _ => rfl⟩
    have hno := List.find?_eq_none.mp hf e he
    simp [hid] at hno
  | some e =>
    have hp := List.find?_some hf
    refine ⟨fun h => ?_,fun h => ?_⟩
    · cases h
    · exact absurd (eq_of_beq hp) (h e (List.mem_of_find?_eq_some hf))

/-- Every 16-byte id is the front of one of 32 bytes. -/
theorem exists_idBytes (id : FixedBytes 16) :
    ∃idBytes : FixedBytes 32,fixed 16 (idBytes.toList.take lenIntentId)=id := by
  have hlen : (id.toList++List.replicate 16 (0 : UInt8)).length=32 := by simp
  refine ⟨⟨id.toList++List.replicate 16 0,hlen⟩,?_⟩
  show fixed 16 ((id.toList++List.replicate 16 0).take lenIntentId)=id
  have htake : (id.toList++List.replicate 16 (0 : UInt8)).take lenIntentId=id.toList := by
    rw [List.take_left' (by simp [lenIntentId])]
  rw [htake,fixed_toList]

end Status

section Runs

def Journal.Live (j : Journal) : Prop := ∀e∈j.table.entries,e.state=.Pending ∨ e.state=.Executing

/-- Every fate is an admission whose entry is still there. -/
structure Journal.Held (j : Journal) : Prop where
  admitted : ∀id f,j.fate id=some f → f=.admitted
  entry : ∀id f,j.fate id=some f → ∃e∈j.table.entries,e.intentId=id

theorem reports_iff_held (j : Journal) (hlive : j.Live) : j.Reports ↔ j.Held := by
  constructor
  · intro h
    have hfate : ∀id f,j.fate id=some f → f=.admitted := by
      intro id f hf
      obtain ⟨idBytes,rfl⟩ := exists_idBytes id
      obtain ⟨hnr,hne⟩ := getIntentState_live j.table hlive idBytes.toList
      cases f with
      | admitted => rfl
      | rejected => exact absurd (h.rejected idBytes hf) hnr
      | expired => exact absurd (h.expired idBytes hf) hne
    refine ⟨hfate,?_⟩
    intro id f hf
    obtain ⟨idBytes,rfl⟩ := exists_idBytes id
    by_contra hno
    have hnone := h.notFound idBytes ((getIntentState_notFound j.table idBytes.toList).mpr
      (fun e he hid => hno ⟨e,he,hid⟩))
    rw [hf] at hnone
    cases hnone
  · intro h
    refine ⟨?_,?_,?_⟩
    · intro idBytes hf
      cases h.admitted _ _ hf
    · intro idBytes hf
      cases h.admitted _ _ hf
    · intro idBytes hn
      cases hf : j.fate (fixed 16 (idBytes.toList.take lenIntentId)) with
      | none => rfl
      | some f =>
        obtain ⟨e,he,hid⟩ := h.entry _ f hf
        exact absurd hid ((getIntentState_notFound j.table idBytes.toList).mp hn e he)

theorem act_eq_some {j j' : Journal} {op : TableOp} :
    j.act op=some j' ↔ ∃t,j.table.act op=some t ∧ j'=⟨t,j.next op⟩ := by
  rw [Journal.act,Option.map_eq_some_iff]
  exact exists_congr (fun t => and_congr_right (fun _ => eq_comm))

theorem live_act {j j' : Journal} {op : TableOp} (hlive : j.Live) (h : j.act op=some j') : j'.Live := by
  obtain ⟨t,ht,rfl⟩ := act_eq_some.mp h
  have hmoves := act_moves hlive ht
  cases hmoves with
  | drops hsub _ => exact fun e he => hlive e (hsub.subset he)
  | pushes intentId resource resourceLen hlen nowMs _ _ hput =>
    intro e he
    rw [hput,List.mem_append,List.mem_singleton] at he
    obtain he | rfl := he
    · exact hlive e he
    · exact Or.inl rfl
  | starts idx a _ _ hset =>
    intro e he
    rw [hset] at he
    obtain he | rfl := List.mem_or_eq_of_mem_set he
    · exact hlive e he
    · exact Or.inr rfl

/-- An entry that stays keeps the fate of its id true. -/
theorem held_of_same {j : Journal} (h : j.Held) {t : Table} (fate : FixedBytes 16 → Option Fate)
    (hf : ∀id,fate id=j.fate id) (ht : ∀e∈j.table.entries,∃e'∈t.entries,e'.intentId=e.intentId) :
    Journal.Held ⟨t,fate⟩ := by
  refine ⟨fun id f he => h.admitted id f ((hf id).symm.trans he),?_⟩
  intro id f he
  obtain ⟨e,hmem,rfl⟩ := h.entry id f ((hf id).symm.trans he)
  exact ht e hmem

/-- An execution changes no id. -/
theorem beginExecuting_ids (t : Table) (idx : Nat) :
    ∀e∈t.entries,∃e'∈(t.beginExecuting idx).2.entries,e'.intentId=e.intentId := by
  intro e he
  obtain ⟨k,hk⟩ := List.mem_iff_getElem?.mp he
  rw [Table.beginExecuting]
  split
  · split_ifs
    · refine ⟨if idx=k then { e with state := .Executing } else e,?_,by split_ifs <;> rfl⟩
      apply List.mem_of_getElem? (i := k)
      show (t.entries.modify idx _)[k]?=_
      rw [List.getElem?_modify,hk]
      split_ifs <;> rfl
    · exact ⟨e,he,rfl⟩
  · exact ⟨e,he,rfl⟩

/-- A sweep that returns and finds nothing timed out removes nothing. -/
theorem sweep_quiet {t t' : Table} {nowMs : UInt64} (h : t.act (.expireTimeouts nowMs)=some t')
    (hno : ¬Ends t (.expireTimeouts nowMs)) :
    t.entries.any (Entry.timedOut nowMs)=false ∧ t'.entries=t.entries := by
  obtain ⟨r,hr,rfl⟩ := Option.map_eq_some_iff.mp h
  have hany : t.entries.any (Entry.timedOut nowMs)=false := by
    by_contra hn
    rw [Bool.not_eq_false,List.any_eq_true] at hn
    exact hno (Or.inr ⟨nowMs,rfl,List.countP_pos_iff.mpr hn,Option.isSome_iff_exists.mpr ⟨r,hr⟩⟩)
  refine ⟨hany,?_⟩
  rw [Table.expireTimeouts] at hr
  split at hr
  · cases hr
  · cases hr
    exact entries_expired t nowMs hany

theorem held_act {j j' : Journal} {op : TableOp} (h : j.Held) (hno : ¬Ends j.table op)
    (hact : j.act op=some j') : j'.Held := by
  obtain ⟨t,ht,rfl⟩ := act_eq_some.mp hact
  cases op with
  | admission intentId resource resourceLen hlen nowMs =>
    cases ht
    by_cases htakes : j.table.Takes intentId (resource.toList.take resourceLen)
    · obtain ⟨hok,hput⟩ := admit_of_takes j.table intentId resource resourceLen hlen nowMs htakes
      have hnext : ∀id,j.next (.admission intentId resource resourceLen hlen nowMs) id=
          if id=intentId then some .admitted else j.fate id := fun id => by simp [Journal.next,hok]
      refine ⟨?_,?_⟩
      · intro id f hf
        simp only [hnext] at hf
        split_ifs at hf with hid
        · exact (Option.some.inj hf).symm
        · exact h.admitted id f hf
      · intro id f hf
        simp only [hnext] at hf
        simp only [hput]
        split_ifs at hf with hid
        · exact ⟨_,List.mem_append_right _ List.mem_cons_self,hid.symm⟩
        · obtain ⟨e,he,hide⟩ := h.entry id f hf
          exact ⟨e,List.mem_append_left _ he,hide⟩
    · obtain ⟨e,he⟩ := admit_of_not_takes j.table intentId resource resourceLen hlen nowMs htakes
      refine held_of_same h _ (fun id => ?_) ?_
      · simp [Journal.next,he]
      · rw [he]
        exact fun e he => ⟨e,he,rfl⟩
  | matchForGrant intentId =>
    cases ht
    exact held_of_same h _ (fun _ => rfl) (fun e he => ⟨e,he,rfl⟩)
  | beginExecuting idx =>
    cases ht
    exact held_of_same h _ (fun _ => rfl) (beginExecuting_ids j.table idx)
  | applyRefusal intentId =>
    cases ht
    have hnone : j.table.matchForGrant intentId=none := by
      by_contra hn
      exact hno (Or.inl ⟨intentId,rfl,Option.isSome_iff_ne_none.mpr hn⟩)
    have hap : j.table.applyRefusal intentId=(.NoMatch,j.table) := by rw [Table.applyRefusal,hnone]
    refine held_of_same h _ (fun id => ?_) ?_
    · simp [Journal.next,hap]
    · rw [hap]
      exact fun e he => ⟨e,he,rfl⟩
  | expireTimeouts nowMs =>
    obtain ⟨hany,htable⟩ := sweep_quiet ht hno
    refine held_of_same h _ (fun id => ?_) ?_
    · have hgone : j.table.entries.any (fun e => e.timedOut nowMs && e.intentId==id)=false := by
        rw [List.any_eq_false] at hany ⊢
        intro e he hp
        exact hany e he (Bool.and_eq_true _ _ ▸ hp).1
      simp [Journal.next,hgone]
    · rw [htable]
      exact fun e he => ⟨e,he,rfl⟩

/-- A call that ends an intent returns, with a fate that no live table reports. -/
theorem ends_act {j : Journal} {op : TableOp} (h : Ends j.table op) :
    ∃j',j.act op=some j' ∧ ¬j'.Held := by
  obtain ⟨intentId,rfl,hm⟩ | ⟨nowMs,rfl,hc,hs⟩ := h
  · obtain ⟨idx,hidx⟩ := Option.isSome_iff_exists.mp hm
    have hout : (j.table.applyRefusal intentId).1=.Rejected := by rw [Table.applyRefusal,hidx]
    refine ⟨_,rfl,fun hheld => ?_⟩
    have hf : j.next (.applyRefusal intentId) intentId=some .rejected := by simp [Journal.next,hout]
    cases hheld.admitted intentId .rejected hf
  · obtain ⟨r,hr⟩ := Option.isSome_iff_exists.mp hs
    have hact : j.act (.expireTimeouts nowMs)=some ⟨r.2,j.next (.expireTimeouts nowMs)⟩ := by
      rw [Journal.act,Table.act,hr]
      rfl
    refine ⟨_,hact,fun hheld => ?_⟩
    obtain ⟨e,he,ht⟩ := List.countP_pos_iff.mp hc
    have hany : j.table.entries.any (fun a => a.timedOut nowMs && a.intentId==e.intentId)=true :=
      List.any_eq_true.mpr ⟨e,he,by simp [ht]⟩
    have hf : j.next (.expireTimeouts nowMs) e.intentId=some .expired := by simp [Journal.next,hany]
    cases hheld.admitted e.intentId .expired hf

end Runs

/-- The answers about an intent are true in every state of a run exactly if the run takes no intent to
a terminal state. -/
theorem terminal_reported_iff (ops : List TableOp) :
    Always Journal.step (fun s => ∀j∈s,j.Reports) (some Journal.new) ops ↔
      Meets Journal.step (fun s op => ∀j∈s,¬Ends j.table op) (some Journal.new) ops := by
  apply always_iff_meets (I := fun s => ∀j∈s,j.Live)
  · intro s op hI j' hj'
    obtain ⟨j,hj,hact⟩ := Option.bind_eq_some_iff.mp hj'
    exact live_act (hI j hj) hact
  · intro s op hI hP
    constructor
    · intro h j hj hends
      obtain ⟨j',hact,hnot⟩ := ends_act hends
      have hstep : Journal.step s op=some j' := Option.bind_eq_some_iff.mpr ⟨j,hj,hact⟩
      exact hnot ((reports_iff_held j' (live_act (hI j hj) hact)).mp (h j' hstep))
    · intro h j' hj'
      obtain ⟨j,hj,hact⟩ := Option.bind_eq_some_iff.mp hj'
      have hheld := (reports_iff_held j (hI j hj)).mp (hP j hj)
      exact (reports_iff_held j' (live_act (hI j hj) hact)).mpr (held_act hheld (h j hj) hact)
  · intro j hj e he
    cases hj
    cases he
  · intro j hj
    cases hj
    refine ⟨?_,?_,fun _ _ => rfl⟩
    · intro idBytes hf
      cases hf
    · intro idBytes hf
      cases hf

def sampleIdBytes : FixedBytes 32 := fixed 32 (List.replicate 32 1)

theorem sample_fits : 1 ≤ maxResource := by decide

def sampleAdmission : TableOp := .admission (fixed 16 (List.replicate 16 1)) (fixed 256 [7]) 1 sample_fits 1000

def refusedRun : List TableOp := [sampleAdmission,.applyRefusal (fixed 16 (List.replicate 16 1))]

def expiredRun : List TableOp := [sampleAdmission,.expireTimeouts 901001]

/-- A refused id is not found, and neither is one that timed out. -/
theorem ended_intent_not_found :
    ¬Always Journal.step (fun s => ∀j∈s,j.Reports) (some Journal.new) refusedRun ∧
      ¬Always Journal.step (fun s => ∀j∈s,j.Reports) (some Journal.new) expiredRun := by
  have hid : fixed 16 (sampleIdBytes.toList.take lenIntentId)=fixed 16 (List.replicate 16 1) := by decide
  constructor
  · intro h
    have hlast := always_foldl _ _ h
    have hret : ∃j∈refusedRun.foldl Journal.step (some Journal.new),
        j.fate (fixed 16 (List.replicate 16 1))=some .rejected ∧
          getIntentState sampleIdBytes.toList j.table=.error .NotFound := ⟨_,rfl,by decide,by decide⟩
    obtain ⟨j,hj,hf,hno⟩ := hret
    have hok := (hlast j hj).rejected sampleIdBytes (hid.symm ▸ hf)
    rw [hno] at hok
    cases hok
  · intro h
    have hlast := always_foldl _ _ h
    have hret : ∃j∈expiredRun.foldl Journal.step (some Journal.new),
        j.fate (fixed 16 (List.replicate 16 1))=some .expired ∧
          getIntentState sampleIdBytes.toList j.table=.error .NotFound := ⟨_,rfl,by decide,by decide⟩
    obtain ⟨j,hj,hf,hno⟩ := hret
    have hok := (hlast j hj).expired sampleIdBytes (hid.symm ▸ hf)
    rw [hno] at hok
    cases hok

end Bolina.Control
