import Bolina.Codec.Codec

namespace Bolina.Intent

open Codec

def tPendingMs : UInt64 := 900000
def maxPending : Nat := 256

inductive IntentError where
  | TableFull
  | DuplicateIntentId
  | ResourceHeld
  | NotPending
  deriving DecidableEq,Repr

inductive RefusalOutcome where
  | Rejected
  | NoMatch
  deriving DecidableEq,Repr

inductive State where
  | Pending
  | Executing
  | Expired
  | Rejected
  deriving DecidableEq,Repr

structure Entry where
  intentId : FixedBytes 16
  resourceId : FixedBytes 256
  resourceLen : Nat
  lenLe : resourceLen ≤ maxResource
  state : State
  admittedMs : UInt64
  deriving DecidableEq

def Entry.resource (e : Entry) : Bytes := e.resourceId.toList.take e.resourceLen

/-- Two entries are not both pending for one id. -/
def Apart (a b : Entry) : Prop := a.state=.Pending → b.state=.Pending → a.intentId≠b.intentId

instance (a b : Entry) : Decidable (Apart a b) := inferInstanceAs (Decidable (_ → _ → _))

structure Table where
  entries : List Entry
  unique : entries.Pairwise Apart
  deriving DecidableEq

def Table.new : Table := ⟨[],List.Pairwise.nil⟩

def Entry.pendingFor (intentId : FixedBytes 16) (e : Entry) : Bool :=
  decide (e.state=.Pending ∧ e.intentId=intentId)

def Entry.holds (resource : Bytes) (e : Entry) : Bool :=
  decide ((e.state=.Pending ∨ e.state=.Executing) ∧ e.resource=resource)

theorem apart_of_not_pendingFor {a b : Entry} (h : a.pendingFor b.intentId=false) : Apart a b := by
  intro ha _ he
  simp [Entry.pendingFor,ha,he] at h

def Table.admit (t : Table) (intentId : FixedBytes 16) (resource : FixedBytes 256) (resourceLen : Nat)
    (hlen : resourceLen ≤ maxResource) (nowMs : UInt64) : Except IntentError Unit × Table :=
  let entry : Entry := ⟨intentId,resource,resourceLen,hlen,.Pending,nowMs⟩
  if hdup : t.entries.any (Entry.pendingFor intentId) then (.error .DuplicateIntentId,t)
  else if t.entries.any (Entry.holds entry.resource) then (.error .ResourceHeld,t)
  else if maxPending ≤ t.entries.length then (.error .TableFull,t)
  else
    (.ok (),
      { entries := t.entries++[entry]
        unique := by
          apply List.pairwise_append.mpr
          refine ⟨t.unique,List.pairwise_singleton _ _,?_⟩
          intro a ha b hb
          rw [List.mem_singleton.mp hb]
          apply apart_of_not_pendingFor
          have hall : ∀e∈t.entries,e.pendingFor intentId=false := by simpa using hdup
          exact hall a ha })

/-- The position of the one pending entry for this id. -/
def Table.matchForGrant (t : Table) (intentId : FixedBytes 16) : Option Nat :=
  t.entries.findIdx? (Entry.pendingFor intentId)

theorem mem_modify {α : Type} (f : α → α) (l : List α) (n : Nat) (b : α) (h : b∈l.modify n f) :
    b∈l ∨ ∃c∈l,b=f c := by
  induction l generalizing n with
  | nil => simp at h
  | cons a l ih =>
    cases n with
    | zero =>
      rw [List.modify_zero_cons] at h
      cases List.mem_cons.mp h with
      | inl he => exact Or.inr ⟨a,List.mem_cons_self,he⟩
      | inr hm => exact Or.inl (List.mem_cons_of_mem _ hm)
    | succ n =>
      rw [List.modify_succ_cons] at h
      cases List.mem_cons.mp h with
      | inl he => exact Or.inl (he ▸ List.mem_cons_self)
      | inr hm =>
        cases ih n hm with
        | inl hl => exact Or.inl (List.mem_cons_of_mem _ hl)
        | inr hr =>
          obtain ⟨c,hc,he⟩ := hr
          exact Or.inr ⟨c,List.mem_cons_of_mem _ hc,he⟩

theorem pairwise_modify {α : Type} {R : α → α → Prop} (f : α → α)
    (hl : ∀a b,R a b → R (f a) b) (hr : ∀a b,R a b → R a (f b)) (l : List α) (n : Nat)
    (h : l.Pairwise R) : (l.modify n f).Pairwise R := by
  induction l generalizing n with
  | nil => simp
  | cons a l ih =>
    obtain ⟨ha,h⟩ := List.pairwise_cons.mp h
    cases n with
    | zero =>
      rw [List.modify_zero_cons]
      exact List.pairwise_cons.mpr ⟨fun b hb => hl a b (ha b hb),h⟩
    | succ n =>
      rw [List.modify_succ_cons]
      refine List.pairwise_cons.mpr ⟨?_,ih n h⟩
      intro b hb
      cases mem_modify f l n b hb with
      | inl hm => exact ha b hm
      | inr hm =>
        obtain ⟨c,hc,he⟩ := hm
        rw [he]
        exact hr a c (ha c hc)

instance : Std.Symm Apart := ⟨fun _ _ h hb ha he => h ha hb he.symm⟩

/-- Moving one entry out of `Pending`. -/
def Table.mark (t : Table) (idx : Nat) (state : State) (hs : state≠.Pending) : Table where
  entries := t.entries.modify idx (fun e => { e with state })
  unique := pairwise_modify _ (fun _ _ _ hp => absurd hp hs) (fun _ _ _ _ hp => absurd hp hs) _ idx t.unique

def Table.compact (t : Table) : Table where
  entries := t.entries.filter (fun e => decide (e.state=.Pending ∨ e.state=.Executing))
  unique := t.unique.filter _

/-- The time at which a pending entry times out. -/
def Entry.deadline (e : Entry) : Nat := e.admittedMs.toNat+tPendingMs.toNat

def Entry.timedOut (nowMs : UInt64) (e : Entry) : Bool :=
  decide (e.state=.Pending ∧ e.deadline < nowMs.toNat)

def Entry.expire (nowMs : UInt64) (e : Entry) : Entry :=
  if e.timedOut nowMs then { e with state := .Expired } else e

theorem expire_pending {nowMs : UInt64} {e : Entry} (h : (e.expire nowMs).state=.Pending) :
    e.expire nowMs=e := by
  rw [Entry.expire] at h ⊢
  split
  · rename_i ht
    rw [if_pos ht] at h
    cases h
  · rfl

/-- The loop of the sweep, without the compaction behind it. -/
def Table.expireLoop (t : Table) (nowMs : UInt64) : Table where
  entries := t.entries.map (Entry.expire nowMs)
  unique := by
    apply List.pairwise_map.mpr
    refine t.unique.imp ?_
    intro a b h ha hb
    have hea := expire_pending ha
    have heb := expire_pending hb
    rw [hea] at ha
    rw [heb] at hb
    rw [hea,heb]
    exact h ha hb

def Table.collapsed (t : Table) (nowMs : UInt64) : Nat := t.entries.countP (Entry.timedOut nowMs)

def Table.expired (t : Table) (nowMs : UInt64) : Table :=
  if 0 < t.collapsed nowMs then (t.expireLoop nowMs).compact else t.expireLoop nowMs

/-- `none` when the deadline of a pending entry leaves the 64-bit range. -/
def Table.expireTimeouts (t : Table) (nowMs : UInt64) : Option (Nat × Table) :=
  if t.entries.any (fun e => decide (e.state=.Pending ∧ 2^64 ≤ e.deadline)) then none
  else some (t.collapsed nowMs,t.expired nowMs)

def Table.beginExecuting (t : Table) (idx : Nat) : Except IntentError Unit × Table :=
  match t.entries[idx]? with
  | some e => if e.state=.Pending then (.ok (),t.mark idx .Executing (by simp)) else (.error .NotPending,t)
  | none => (.error .NotPending,t)

def Table.applyRefusal (t : Table) (intentId : FixedBytes 16) : RefusalOutcome × Table :=
  match t.matchForGrant intentId with
  | some idx => (.Rejected,(t.mark idx .Rejected (by simp)).compact)
  | none => (.NoMatch,t)

/-- The entry a grant for this id is matched with. -/
def Table.pendingEntry (t : Table) (intentId : FixedBytes 16) : Option Entry :=
  (t.matchForGrant intentId).bind (fun idx => t.entries[idx]?)

theorem pendingEntry_eq_find (t : Table) (intentId : FixedBytes 16) :
    t.pendingEntry intentId=t.entries.find? (Entry.pendingFor intentId) :=
  List.find?_eq_bind_findIdx?_getElem?.symm

/-- The pending entries of an id are exactly its matched entry. -/
theorem pendingEntry_iff (t : Table) (intentId : FixedBytes 16) (e : Entry) :
    t.pendingEntry intentId=some e ↔ e∈t.entries ∧ e.state=.Pending ∧ e.intentId=intentId := by
  rw [pendingEntry_eq_find]
  constructor
  · intro h
    have hp := List.find?_some h
    simp only [Entry.pendingFor,decide_eq_true_eq] at hp
    exact ⟨List.mem_of_find?_eq_some h,hp⟩
  · intro h
    obtain ⟨hm,hs,hid⟩ := h
    have hp : e.pendingFor intentId=true := decide_eq_true ⟨hs,hid⟩
    cases hf : t.entries.find? (Entry.pendingFor intentId) with
    | none => exact absurd hp (List.find?_eq_none.mp hf e hm)
    | some a =>
      have ha := List.find?_some hf
      simp only [Entry.pendingFor,decide_eq_true_eq] at ha
      -- two pending entries of one id stand apart, so they are the same entry
      by_contra hne
      have happ := t.unique.forall (List.mem_of_find?_eq_some hf) hm (fun he => hne (congrArg some he))
      exact happ ha.1 hs (ha.2.trans hid.symm)

end Bolina.Intent
