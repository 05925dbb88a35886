import Bolina.State.IntentStale

namespace Bolina.Intent

open Codec

/-- A call on the table. -/
inductive TableOp where
  | admission (intentId : FixedBytes 16) (resource : FixedBytes 256) (resourceLen : Nat)
      (hlen : resourceLen ≤ maxResource) (nowMs : UInt64)
  | matchForGrant (intentId : FixedBytes 16)
  | beginExecuting (idx : Nat)
  | applyRefusal (intentId : FixedBytes 16)
  | expireTimeouts (nowMs : UInt64)

/-- `none` where the call panics. -/
def Table.act (t : Table) : TableOp → Option Table
  | .admission intentId resource resourceLen hlen nowMs => some ( t.admit intentId resource resourceLen hlen nowMs).2
  | .matchForGrant _ => some t
  | .beginExecuting idx => some (t.beginExecuting idx).2
  | .applyRefusal intentId => some (t.applyRefusal intentId).2
  | .expireTimeouts nowMs => (t.expireTimeouts nowMs).map Prod.snd

def Table.runs (t : Table) (ops : List TableOp) : Option Table := ops.foldlM Table.act t

/-- The clock of the call is below 2^63. -/
def TableOp.Early : TableOp → Prop
  | .admission _ _ _ _ nowMs => nowMs.toNat < 2^63
  | .expireTimeouts nowMs => nowMs.toNat < 2^63
  | _ => True

/-- What every table of a run is. -/
structure Table.Sound (t : Table) : Prop where
  live : ∀e∈t.entries,e.state=.Pending ∨ e.state=.Executing
  onePending : t.entries.Pairwise Apart
  apart : t.entries.Pairwise (fun a b => a.resource≠b.resource)
  fits : t.entries.length ≤ maxPending

/-- No deadline leaves the 64-bit range. -/
def Table.InTime (t : Table) : Prop := ∀e∈t.entries,e.admittedMs.toNat < 2^63

/-- What a call does to the entries: it drops pending ones, puts one behind them or moves
one to `Executing`. -/
inductive Table.Moves (t : Table) (op : TableOp) (t' : Table) : Prop where
  | drops (h : t'.entries.Sublist t.entries) (hkept : ∀e∈t.entries,e.state=.Executing → e∈t'.entries)
  | pushes (intentId : FixedBytes 16) (resource : FixedBytes 256) (resourceLen : Nat)
      (hlen : resourceLen ≤ maxResource) (nowMs : UInt64)
      (hop : op=.admission intentId resource resourceLen hlen nowMs)
      (htakes : t.Takes intentId (resource.toList.take resourceLen))
      (h : t'.entries=t.entries++[admitted intentId resource resourceLen hlen nowMs])
  | starts (idx : Nat) (e : Entry) (hi : t.entries[idx]?=some e) (hp : e.state=.Pending)
      (h : t'.entries=t.entries.set idx { e with state := .Executing })

section Entries

/-- A dead entry among live ones is all that a compaction takes away. -/
theorem filter_modify_eq_eraseIdx {α : Type*} (p : α → Bool) (f : α → α) (hf : ∀a,p (f a)=false) (l : List α)
    (hl : ∀a∈l,p a=true) (n : Nat) : (l.modify n f).filter p=l.eraseIdx n := by
  induction l generalizing n with
  | nil => simp
  | cons a l ih =>
    have ha : p a=true := hl a List.mem_cons_self
    have hrest : ∀b∈l,p b=true := fun b hb => hl b (List.mem_cons_of_mem a hb)
    cases n with
    | zero =>
      rw [List.modify_zero_cons,List.filter_cons_of_neg (by simp [hf]),List.eraseIdx_cons_zero]
      exact List.filter_eq_self.mpr hrest
    | succ n => rw [List.modify_succ_cons,List.filter_cons_of_pos ha,ih hrest,List.eraseIdx_cons_succ]

variable {t : Table}

theorem applyRefusal_moves (hlive : ∀e∈t.entries,e.state=.Pending ∨ e.state=.Executing)
    (intentId : FixedBytes 16) : t.Moves (.applyRefusal intentId) (t.applyRefusal intentId).2 := by
  rw [Table.applyRefusal]
  cases hm : t.matchForGrant intentId with
  | none => exact .drops (List.Sublist.refl _) (fun e he _ => he)
  | some idx =>
    obtain ⟨hlt,hp,_⟩ := List.findIdx?_eq_some_iff_getElem.mp hm
    have hpending := (of_decide_eq_true hp).1
    have he : ((t.mark idx .Rejected (by simp)).compact).entries=t.entries.eraseIdx idx :=
      filter_modify_eq_eraseIdx _ _ (fun _ => rfl) t.entries (fun e he => decide_eq_true (hlive e he)) idx
    refine .drops ?_ ?_
    · rw [he]
      exact List.eraseIdx_sublist _ _
    · intro e hmem hx
      rw [he,List.mem_eraseIdx_iff_getElem]
      obtain ⟨k,hk,rfl⟩ := List.mem_iff_getElem.mp hmem
      refine ⟨k,hk,?_,rfl⟩
      intro heq
      obtain rfl := heq
      rw [hpending] at hx
      cases hx

/-- A sweep takes the entries that timed out and keeps the others in their order. -/
theorem expired_eq_filter (hlive : ∀e∈t.entries,e.state=.Pending ∨ e.state=.Executing) (nowMs : UInt64) :
    (t.expired nowMs).entries=t.entries.filter (fun e => !e.timedOut nowMs) := by
  have hloop : ∀l : List Entry,(∀e∈l,e.state=.Pending ∨ e.state=.Executing) →
      (l.map (Entry.expire nowMs)).filter (fun e => decide (e.state=.Pending ∨ e.state=.Executing))=
        l.filter (fun e => !e.timedOut nowMs) := by
    intro l hl
    induction l with
    | nil => rfl
    | cons e l ih =>
      have hrest := ih (fun a ha => hl a (List.mem_cons_of_mem e ha))
      cases ht : e.timedOut nowMs with
      | true =>
        have hdead : e.expire nowMs={ e with state := .Expired } := by rw [Entry.expire,ht]; rfl
        rw [List.map_cons,hdead,List.filter_cons_of_neg (by simp),List.filter_cons_of_neg (by simp [ht]),hrest]
      | false =>
        have hsame : e.expire nowMs=e := by rw [Entry.expire,ht]; rfl
        have hin : decide (e.state=.Pending ∨ e.state=.Executing)=true :=
          decide_eq_true (hl e List.mem_cons_self)
        simp only [List.map_cons,hsame,List.filter_cons,hin,ht,Bool.not_false,if_true,hrest]
  rw [Table.expired]
  by_cases hc : 0 < t.collapsed nowMs
  · rw [if_pos hc]
    exact hloop t.entries hlive
  · rw [if_neg hc]
    have hnone : ∀e∈t.entries,e.timedOut nowMs=false := by
      intro e he
      have hz := List.countP_eq_zero.mp (Nat.eq_zero_of_not_pos hc) e he
      exact Bool.not_eq_true _ ▸ hz
    have hall : t.entries.filter (fun e => !e.timedOut nowMs)=t.entries :=
      List.filter_eq_self.mpr (fun e he => by rw [hnone e he]; rfl)
    have hany : t.entries.any (Entry.timedOut nowMs)=false :=
      List.any_eq_false.mpr (fun e he => by rw [hnone e he]; decide)
    have hsame := entries_expired t nowMs hany
    rw [Table.expired,if_neg hc] at hsame
    rw [hall,hsame]

theorem expireTimeouts_in_time (h : t.InTime) (nowMs : UInt64) :
    t.expireTimeouts nowMs=some (t.collapsed nowMs,t.expired nowMs) := by
  have hno : ¬t.entries.any (fun e => decide (e.state=.Pending ∧ 2^64 ≤ e.deadline))=true := by
    rw [List.any_eq_true]
    intro hw
    obtain ⟨e,he,hp⟩ := hw
    have hd := (of_decide_eq_true hp).2
    have hlt := h e he
    have ht : tPendingMs.toNat=900000 := rfl
    rw [Entry.deadline,ht] at hd
    omega
  rw [Table.expireTimeouts,if_neg hno]

theorem beginExecuting_moves (idx : Nat) : t.Moves (.beginExecuting idx) (t.beginExecuting idx).2 := by
  rw [Table.beginExecuting]
  cases hi : t.entries[idx]? with
  | none => exact .drops (List.Sublist.refl _) (fun e he _ => he)
  | some e =>
    by_cases hp : e.state=.Pending
    · simp only [if_pos hp]
      refine .starts idx e hi hp ?_
      show t.entries.modify idx _=_
      rw [List.modify_eq_set_getElem?,hi]
      rfl
    · simp only [if_neg hp]
      exact .drops (List.Sublist.refl _) (fun e he _ => he)

theorem admit_moves (intentId : FixedBytes 16) (resource : FixedBytes 256) (resourceLen : Nat)
    (hlen : resourceLen ≤ maxResource) (nowMs : UInt64) :
    t.Moves (.admission intentId resource resourceLen hlen nowMs)
      ( t.admit intentId resource resourceLen hlen nowMs).2 := by
  by_cases h : t.Takes intentId (resource.toList.take resourceLen)
  · exact .pushes intentId resource resourceLen hlen nowMs rfl h
      (admit_of_takes t intentId resource resourceLen hlen nowMs h).2
  · obtain ⟨e,he⟩ := admit_of_not_takes t intentId resource resourceLen hlen nowMs h
    rw [he]
    exact .drops (List.Sublist.refl _) (fun e he _ => he)

/-- A call that returns moves the table. -/
theorem act_moves (hlive : ∀e∈t.entries,e.state=.Pending ∨ e.state=.Executing) {op : TableOp} {t' : Table}
    (h : t.act op=some t') : t.Moves op t' := by
  cases op with
  | admission intentId resource resourceLen hlen nowMs =>
    cases h
    exact admit_moves intentId resource resourceLen hlen nowMs
  | matchForGrant intentId =>
    cases h
    exact .drops (List.Sublist.refl _) (fun e he _ => he)
  | beginExecuting idx =>
    cases h
    exact beginExecuting_moves idx
  | applyRefusal intentId =>
    cases h
    exact applyRefusal_moves hlive intentId
  | expireTimeouts nowMs =>
    have ht : t'=t.expired nowMs := by
      rw [Table.act,Table.expireTimeouts] at h
      split at h
      · cases h
      · cases h
        rfl
    have he := expired_eq_filter hlive nowMs
    rw [← ht] at he
    refine .drops ?_ ?_
    · rw [he]
      exact List.filter_sublist
    · intro e hmem hx
      rw [he,List.mem_filter]
      refine ⟨hmem,?_⟩
      simp [Entry.timedOut,hx]

/-- Every call returns while the deadlines are in range. -/
theorem act_returns (hi : t.InTime) (op : TableOp) : ∃t',t.act op=some t' := by
  cases op with
  | expireTimeouts nowMs =>
    refine ⟨t.expired nowMs,?_⟩
    rw [Table.act,expireTimeouts_in_time hi]
    rfl
  | _ => exact ⟨_,rfl⟩

theorem Table.Moves.inTime {op : TableOp} {t' : Table} (h : t.Moves op t') (hop : op.Early) (hi : t.InTime) :
    t'.InTime := by
  cases h with
  | drops hsub _ => exact fun e he => hi e (hsub.subset he)
  | pushes intentId resource resourceLen hlen nowMs he _ ht =>
    subst he
    intro e hmem
    rw [ht,List.mem_append,List.mem_singleton] at hmem
    obtain hmem | rfl := hmem
    · exact hi e hmem
    · exact hop
  | starts idx a ha _ ht =>
    intro e hmem
    rw [ht] at hmem
    obtain hmem | rfl := List.mem_or_eq_of_mem_set hmem
    · exact hi e hmem
    · exact hi a (List.mem_of_getElem? ha)

/-- Resources stay apart: a new entry's is held by none, and the others keep theirs. -/
theorem Table.Moves.sound {op : TableOp} {t' : Table} (h : t.Moves op t') (hs : t.Sound) : t'.Sound := by
  cases h with
  | drops hsub _ =>
    exact ⟨fun e he => hs.live e (hsub.subset he),t'.unique,hs.apart.sublist hsub,hsub.length_le.trans hs.fits⟩
  | pushes intentId resource resourceLen hlen nowMs _ htakes ht =>
    refine ⟨?_,t'.unique,?_,?_⟩
    · intro e he
      rw [ht,List.mem_append,List.mem_singleton] at he
      obtain he | rfl := he
      · exact hs.live e he
      · exact Or.inl rfl
    · rw [ht]
      refine List.pairwise_append.mpr ⟨hs.apart,List.pairwise_singleton _ _,?_⟩
      intro a ha b hb hab
      rw [List.mem_singleton.mp hb] at hab
      have hunheld := List.any_eq_false.mp htakes.unheld a ha
      exact hunheld (decide_eq_true ⟨hs.live a ha,hab⟩)
    · rw [ht,List.length_append,List.length_singleton]
      exact htakes.room
  | starts idx a ha hp ht =>
    have hset : t'.entries=t.entries.modify idx (fun e => { e with state := .Executing }) := by
      rw [ht,List.modify_eq_set_getElem?,ha]
      rfl
    refine ⟨?_,t'.unique,?_,?_⟩
    · intro e he
      rw [ht] at he
      obtain he | rfl := List.mem_or_eq_of_mem_set he
      · exact hs.live e he
      · exact Or.inr rfl
    · rw [hset]
      exact pairwise_modify (fun e => { e with state := .Executing }) (fun _ _ hab => hab) (fun _ _ hab => hab)
        t.entries idx hs.apart
    · rw [ht,List.length_set]
      exact hs.fits

/-- An executing entry stays as it is. -/
theorem Table.Moves.keeps {op : TableOp} {t' : Table} (h : t.Moves op t') (e : Entry) (he : e∈t.entries)
    (hx : e.state=.Executing) : e∈t'.entries := by
  cases h with
  | drops _ hkept => exact hkept e he hx
  | pushes intentId resource resourceLen hlen nowMs _ _ ht =>
    rw [ht]
    exact List.mem_append_left _ he
  | starts idx a ha hp ht =>
    obtain ⟨k,hk⟩ := List.mem_iff_getElem?.mp he
    have hne : idx≠k := by
      intro heq
      obtain rfl := heq
      rw [hk] at ha
      cases ha
      rw [hx] at hp
      cases hp
    rw [ht]
    apply List.mem_of_getElem? (i := k)
    rw [List.getElem?_set_ne hne]
    exact hk

end Entries

section Runs

theorem runs_cons (t : Table) (op : TableOp) (ops : List TableOp) :
    t.runs (op::ops)=(t.act op).bind (fun t' => t'.runs ops) := by
  rw [Table.runs,List.foldlM_cons]
  rfl

/-- A run of early calls returns, keeps the table sound and keeps its executing entries. -/
theorem runs_sound (t : Table) (hs : t.Sound) (hi : t.InTime) (ops : List TableOp) (hops : ∀op∈ops,op.Early) :
    ∃t',t.runs ops=some t' ∧ t'.Sound ∧ t'.InTime ∧ ∀e∈t.entries,e.state=.Executing → e∈t'.entries := by
  induction ops generalizing t with
  | nil => exact ⟨t,rfl,hs,hi,fun e he _ => he⟩
  | cons op ops ih =>
    obtain ⟨t₁,hact⟩ := act_returns hi op
    have hmoves := act_moves hs.live hact
    have hi₁ := hmoves.inTime (hops op List.mem_cons_self) hi
    obtain ⟨t',hrun,hs',hi',hkept⟩ := ih t₁ (hmoves.sound hs) hi₁ (fun x hx => hops x (List.mem_cons_of_mem _ hx))
    refine ⟨t',?_,hs',hi',fun e he hx => hkept e (hmoves.keeps e he hx) hx⟩
    rw [runs_cons,hact]
    exact hrun

theorem sound_new : Table.new.Sound :=
  ⟨fun _ he => absurd he List.not_mem_nil,List.Pairwise.nil,List.Pairwise.nil,Nat.zero_le _⟩

theorem inTime_new : Table.new.InTime := fun _ he => absurd he List.not_mem_nil

/-- Entries with one resource are one entry. -/
theorem eq_of_resource {t : Table} (hs : t.Sound) {a b : Entry} (ha : a∈t.entries) (hb : b∈t.entries)
    (h : a.resource=b.resource) : a=b := by
  by_contra hne
  have hsymm : Std.Symm (fun a b : Entry => a.resource≠b.resource) := ⟨fun _ _ hab he => hab he.symm⟩
  exact hs.apart.forall ha hb hne h

theorem takes_iff {t : Table} (hs : t.Sound) (intentId : FixedBytes 16) (resource : Bytes) :
    t.Takes intentId resource ↔ ¬((∃e∈t.entries,e.state=.Pending ∧ e.intentId=intentId) ∨
      (∃e∈t.entries,e.resource=resource) ∨ t.entries.length=maxPending) := by
  have hheld : t.entries.any (Entry.holds resource)=true ↔ ∃e∈t.entries,e.resource=resource := by
    rw [List.any_eq_true]
    refine exists_congr (fun e => and_congr_right (fun he => ?_))
    rw [Entry.holds,decide_eq_true_iff]
    exact and_iff_right (hs.live e he)
  have hdup : t.entries.any (Entry.pendingFor intentId)=true ↔ ∃e∈t.entries,e.state=.Pending ∧ e.intentId=intentId := by
    rw [List.any_eq_true]
    exact exists_congr (fun e => and_congr_right (fun _ => decide_eq_true_iff))
  have hfits := hs.fits
  rw [← hheld,← hdup]
  constructor
  · intro h hno
    obtain hd | hh | hl := hno
    · rw [h.free] at hd
      cases hd
    · rw [h.unheld] at hh
      cases hh
    · exact absurd h.room (by omega)
  · intro h
    rw [not_or,not_or,Bool.not_eq_true,Bool.not_eq_true] at h
    exact ⟨h.1,h.2.1,by omega⟩

end Runs

/-- What the intent table keeps in every history of calls. -/
theorem table_invariant (ops : List TableOp) (hops : ∀op∈ops,op.Early) :
    ∃t,Table.new.runs ops=some t ∧ t.Sound ∧
      (∀later,(∀op∈later,op.Early) → ∃t',t.runs later=some t' ∧
        ∀e∈t.entries,e.state=.Executing → e∈t'.entries ∧ ∀e'∈t'.entries,e'.resource=e.resource → e'=e) ∧
      (∀intentId resource resourceLen hlen nowMs,
        ((∃e, t.admit intentId resource resourceLen hlen nowMs=(.error e,t)) ↔
          (∃e∈t.entries,e.state=.Pending ∧ e.intentId=intentId) ∨
          (∃e∈t.entries,e.resource=resource.toList.take resourceLen) ∨ t.entries.length=maxPending) ∧
        ((∃e, t.admit intentId resource resourceLen hlen nowMs=(.error e,t)) ∨
          (( t.admit intentId resource resourceLen hlen nowMs).1=.ok () ∧
            ( t.admit intentId resource resourceLen hlen nowMs).2.entries=
              t.entries++[⟨intentId,resource,resourceLen,hlen,.Pending,nowMs⟩]))) ∧
      ∀nowMs,∃n t',t.expireTimeouts nowMs=some (n,t') ∧
        t'.entries=t.entries.filter (fun e => decide
          ¬(e.state=.Pending ∧ e.admittedMs.toNat+tPendingMs.toNat < nowMs.toNat)) := by
  obtain ⟨t,hrun,hs,hi,_⟩ := runs_sound Table.new sound_new inTime_new ops hops
  refine ⟨t,hrun,hs,?_,?_,?_⟩
  · intro later hlater
    obtain ⟨t',hrun',hs',_,hkept⟩ := runs_sound t hs hi later hlater
    refine ⟨t',hrun',?_⟩
    intro e he hx
    have hmem := hkept e he hx
    exact ⟨hmem,fun e' he' hr => eq_of_resource hs' he' hmem hr⟩
  · intro intentId resource resourceLen hlen nowMs
    have htakes := takes_iff hs intentId (resource.toList.take resourceLen)
    by_cases h : t.Takes intentId (resource.toList.take resourceLen)
    · have hok := admit_of_takes t intentId resource resourceLen hlen nowMs h
      refine ⟨⟨?_,fun hno => absurd hno (htakes.mp h)⟩,Or.inr hok⟩
      intro hw
      obtain ⟨e,he⟩ := hw
      rw [he] at hok
      cases hok.1
    · have herr := admit_of_not_takes t intentId resource resourceLen hlen nowMs h
      refine ⟨⟨fun _ => ?_,fun _ => herr⟩,Or.inl herr⟩
      by_contra hno
      exact h (htakes.mpr hno)
  · intro nowMs
    refine ⟨t.collapsed nowMs,t.expired nowMs,expireTimeouts_in_time hi nowMs,?_⟩
    rw [expired_eq_filter hs.live]
    refine List.filter_congr (fun e _ => ?_)
    rw [Entry.timedOut,decide_not]
    rfl

/-- Two intents: one is started and stays, the other times out. -/
def sampleOps : List TableOp :=
  [.admission (fixed 16 [1]) (fixed 256 [7]) 1 (by decide) 1000,
    .admission (fixed 16 [2]) (fixed 256 [8]) 1 (by decide) 2000,.beginExecuting 0]

theorem table_invariant_sample : ∃t,Table.new.runs sampleOps=some t ∧ t.Sound ∧
    ∃t',t.runs [.applyRefusal (fixed 16 [1]),.expireTimeouts 902001]=some t' ∧
      ∀e∈t.entries,e.state=.Executing → e∈t'.entries := by
  have hops : ∀op∈sampleOps,op.Early := by
    intro op hop
    simp only [sampleOps,List.mem_cons,List.not_mem_nil,or_false] at hop
    obtain rfl | rfl | rfl := hop <;> simp [TableOp.Early]
  obtain ⟨t,hrun,hs,hlater,_⟩ := table_invariant sampleOps hops
  obtain ⟨t',hrun',hkept⟩ := hlater [.applyRefusal (fixed 16 [1]),.expireTimeouts 902001] (by simp [TableOp.Early])
  exact ⟨t,hrun,hs,t',hrun',fun e he hx => (hkept e he hx).1⟩

end Bolina.Intent
