import Bolina.State.IntentRun
import Bolina.Transport.CheckedDispatch

namespace Bolina.Transport

open Codec Intent
open Checked (Fits maxAliases)

def Resolver.findEntry (r : Resolver) (canonical : Bytes) : Option Nat :=
  r.entries.findIdx? (fun c => c==canonical)

def Resolver.addAlias (r : Resolver) (canonical aliasBytes : Bytes) : Except ResolveError Unit × Resolver :=
  if aliasBytes=[] ∨ idMax < aliasBytes.length then (.error .MalformedCanonical,r)
  else
    match r.findEntry canonical with
    | none => (.error .UnknownResource,r)
    | some idx =>
      if r.aliases.length=maxAliases then (.error .AliasPoolFull,r)
      else (.ok (),{ r with aliases := r.aliases++[⟨aliasBytes,idx⟩] })

/-- The entry at index `i` is spelled so, by its canonical form or by an alias of it. -/
def Resolver.Matches (r : Resolver) (i : Nat) (proposed : Bytes) : Prop :=
  r.entries[i]?=some proposed ∨ i < r.entries.length ∧ ⟨proposed,i⟩∈r.aliases

/-- The fingerprint that a canonical form carries. -/
def fpOf (canonical : Bytes) : Bytes := (canonical.drop 4).take fpHexLen

section Resolve

variable {r : Resolver} {proposed : Bytes}

theorem aliasHits_iff (i : Nat) : r.aliasHits i proposed=true ↔ ⟨proposed,i⟩∈r.aliases := by
  rw [Resolver.aliasHits,List.any_eq_true]
  constructor
  · intro hw
    obtain ⟨a,ha,h⟩ := hw
    rw [Bool.and_eq_true,beq_iff_eq,beq_iff_eq] at h
    obtain ⟨hi,hb⟩ := h
    have he : a=⟨proposed,i⟩ := by
      cases a
      rw [← hi,← hb]
    exact he ▸ ha
  · exact fun h => ⟨_,h,by simp⟩

/-- The test of the loop of `resolve`. -/
def Resolver.hit (r : Resolver) (proposed : Bytes) (p : Bytes × Nat) : Prop :=
  p.1=proposed ∨ r.aliasHits p.2 proposed=true

theorem hit_iff {p : Bytes × Nat} (hp : p∈r.entries.zipIdx) : r.hit proposed p ↔ r.Matches p.2 proposed := by
  have hi := List.mem_zipIdx_iff_getElem?.mp hp
  obtain ⟨hlt,_⟩ := List.getElem?_eq_some_iff.mp hi
  rw [Resolver.hit,Resolver.Matches,aliasHits_iff,hi,Option.some.injEq,and_iff_right hlt]

/-- Once an entry is found the loop ends with it, or another one hits. -/
theorem resolveLoop_found_iff (f : Nat) (cs : List (Bytes × Nat)) (hf : ∀p∈cs,p.2≠f) (idx : Nat) :
    r.resolveLoop proposed cs (some f)=.ok (some idx) ↔ f=idx ∧ ∀p∈cs,¬r.hit proposed p := by
  induction cs with
  | nil =>
    rw [Resolver.resolveLoop]
    simp
  | cons p cs ih =>
    obtain ⟨c,i⟩ := p
    have hi : f≠i := fun h => hf (c,i) List.mem_cons_self h.symm
    have hrest := ih (fun q hq => hf q (List.mem_cons_of_mem _ hq))
    rw [Resolver.resolveLoop,List.forall_mem_cons]
    by_cases hit : c=proposed ∨ r.aliasHits i proposed=true
    · have hyes : r.hit proposed (c,i) := hit
      rw [if_pos hit,if_pos hi]
      simp [hyes]
    · have hno : ¬r.hit proposed (c,i) := hit
      rw [if_neg hit,hrest,and_iff_right hno]

/-- The loop finds an index exactly if its entry alone hits. -/
theorem resolveLoop_ok_iff (cs : List (Bytes × Nat)) (hcs : (cs.map Prod.snd).Nodup) (idx : Nat) :
    r.resolveLoop proposed cs none=.ok (some idx) ↔
      ∃p∈cs,p.2=idx ∧ r.hit proposed p ∧ ∀q∈cs,r.hit proposed q → q.2=idx := by
  induction cs with
  | nil =>
    rw [Resolver.resolveLoop]
    simp
  | cons p cs ih =>
    obtain ⟨c,i⟩ := p
    rw [List.map_cons,List.nodup_cons] at hcs
    obtain ⟨hni,hnodup⟩ := hcs
    have hapart : ∀q∈cs,q.2≠i := fun q hq he => hni (List.mem_map.mpr ⟨q,hq,he⟩)
    rw [Resolver.resolveLoop]
    by_cases hit : c=proposed ∨ r.aliasHits i proposed=true
    · rw [if_pos hit,resolveLoop_found_iff i cs hapart idx]
      constructor
      · intro hw
        obtain ⟨rfl,hno⟩ := hw
        refine ⟨_,List.mem_cons_self,rfl,hit,?_⟩
        intro q hq hh
        obtain rfl | hq := List.mem_cons.mp hq
        · rfl
        · exact absurd hh (hno q hq)
      · intro hw
        obtain ⟨q,_,_,_,hall⟩ := hw
        have he : i=idx := hall (c,i) List.mem_cons_self hit
        refine ⟨he,fun q hq hh => hapart q hq ?_⟩
        exact (hall q (List.mem_cons_of_mem _ hq) hh).trans he.symm
    · rw [if_neg hit,ih hnodup]
      constructor
      · intro hw
        obtain ⟨q,hq,he,hh,hall⟩ := hw
        refine ⟨q,List.mem_cons_of_mem _ hq,he,hh,?_⟩
        intro q' hq' hh'
        obtain rfl | hq' := List.mem_cons.mp hq'
        · exact absurd hh' hit
        · exact hall q' hq' hh'
      · intro hw
        obtain ⟨q,hq,he,hh,hall⟩ := hw
        obtain rfl | hq := List.mem_cons.mp hq
        · exact absurd hh hit
        · exact ⟨q,hq,he,hh,fun q' hq' => hall q' (List.mem_cons_of_mem _ hq')⟩

theorem Resolver.Matches.lt {r : Resolver} {i : Nat} {proposed : Bytes} (h : r.Matches i proposed) :
    i < r.entries.length := by
  obtain hi | ⟨hi,_⟩ := h
  · exact (List.getElem?_eq_some_iff.mp hi).1
  · exact hi

/-- Over all entries the loop ends with the only one that matches. -/
theorem resolveLoop_only_iff (r : Resolver) (proposed : Bytes) (idx : Nat) :
    r.resolveLoop proposed r.entries.zipIdx none=.ok (some idx) ↔
      r.Matches idx proposed ∧ ∀j,r.Matches j proposed → j=idx := by
  have hnodup : (r.entries.zipIdx.map Prod.snd).Nodup := by
    rw [List.zipIdx_map_snd]
    exact List.nodup_range'
  have hin : ∀j,r.Matches j proposed → ∃e,(e,j)∈r.entries.zipIdx := by
    intro j hj
    exact ⟨r.entries.get ⟨j,hj.lt⟩,List.mem_zipIdx_iff_getElem?.mpr (List.getElem?_eq_getElem hj.lt)⟩
  rw [resolveLoop_ok_iff _ hnodup]
  constructor
  · intro hw
    obtain ⟨p,hp,rfl,hh,hall⟩ := hw
    refine ⟨(hit_iff hp).mp hh,?_⟩
    intro j hj
    obtain ⟨e,he⟩ := hin j hj
    exact hall (e,j) he ((hit_iff he).mpr hj)
  · intro hw
    obtain ⟨hm,hall⟩ := hw
    obtain ⟨e,he⟩ := hin idx hm
    exact ⟨(e,idx),he,rfl,(hit_iff he).mpr hm,fun q hq hh => hall q.2 ((hit_iff hq).mp hh)⟩

/-- A spelling resolves exactly if it belongs to one declared entry, and that is the executor's own. -/
theorem resolve_ok_iff (r : Resolver) (proposed c : Bytes) :
    r.resolve proposed=.ok c ↔ ∃i,r.entries[i]?=some c ∧ r.Matches i proposed ∧
      (∀j,r.Matches j proposed → j=i) ∧ fpOf c=r.ownFp := by
  have hfound := resolveLoop_only_iff r proposed
  have hno : (∀idx,r.resolveLoop proposed r.entries.zipIdx none≠.ok (some idx)) → ¬∃i,r.entries[i]?=some c ∧
      r.Matches i proposed ∧ (∀j,r.Matches j proposed → j=i) ∧ fpOf c=r.ownFp := by
    intro h hw
    obtain ⟨i,_,hm,hall,_⟩ := hw
    exact h i ((hfound i).mpr ⟨hm,hall⟩)
  rw [Resolver.resolve]
  cases hl : r.resolveLoop proposed r.entries.zipIdx none with
  | error e => exact iff_of_false (fun h => by cases h) (hno (fun idx h => by rw [hl] at h; cases h))
  | ok found =>
    cases found with
    | none => exact iff_of_false (fun h => by cases h) (hno (fun idx h => by rw [hl] at h; cases h))
    | some idx =>
      obtain ⟨hm,hall⟩ := (hfound idx).mp hl
      have hget : r.entries[idx]?=some (r.entries.getD idx []) := by
        rw [List.getD_eq_getElem?_getD,List.getElem?_eq_getElem hm.lt]
        rfl
      change (if fpOf (r.entries.getD idx [])≠r.ownFp then _ else _)=_ ↔ _
      by_cases hfp : fpOf (r.entries.getD idx [])=r.ownFp
      · rw [if_neg (not_not.mpr hfp),Except.ok.injEq]
        constructor
        · intro heq
          obtain rfl := heq
          exact ⟨idx,hget,hm,hall,hfp⟩
        · intro hw
          obtain ⟨i,hi,hmi,_,_⟩ := hw
          rw [hall i hmi,hget] at hi
          exact Option.some.inj hi
      · rw [if_pos hfp]
        refine iff_of_false (fun h => by cases h) (fun hw => ?_)
        obtain ⟨i,hi,hmi,_,hown⟩ := hw
        rw [hall i hmi,hget] at hi
        exact hfp (Option.some.inj hi ▸ hown)

theorem resolveLoop_ne (r : Resolver) (proposed : Bytes) (cs : List (Bytes × Nat)) (found : Option Nat)
    (e : IntentError) : r.resolveLoop proposed cs found≠.error (.Intent e) := by
  induction cs generalizing found with
  | nil => simp [Resolver.resolveLoop]
  | cons c cs ih =>
    obtain ⟨canonical,i⟩ := c
    cases found with
    | none =>
      rw [Resolver.resolveLoop]
      split
      · exact ih _
      · exact ih _
    | some f =>
      rw [Resolver.resolveLoop]
      split
      · split
        · simp
        · exact ih _
      · exact ih _

theorem resolve_ne (r : Resolver) (proposed : Bytes) (e : IntentError) :
    r.resolve proposed≠.error (.Intent e) := by
  rw [Resolver.resolve]
  have hl := resolveLoop_ne r proposed r.entries.zipIdx none e
  cases hr : r.resolveLoop proposed r.entries.zipIdx none with
  | error e' =>
    rw [hr] at hl
    exact fun h => hl (congrArg Except.error (Except.error.inj h))
  | ok found =>
    cases found with
    | none => simp
    | some idx =>
      simp only
      split <;> simp

/-- The errors of the intent table come from its admission. -/
theorem resolveAndAdmit_intent_iff (r : Resolver) (t : Table) (intentId : FixedBytes 16) (resourceId : Bytes)
    (nowMs : UInt64) (e : IntentError) :
    (r.resolveAndAdmit t intentId resourceId nowMs).1=.error (.Intent e) ↔
      ∃canonical,r.resolve resourceId=.ok canonical ∧ canonical.length ≤ maxResource ∧
        t.admitError intentId canonical=some e := by
  rw [Resolver.resolveAndAdmit]
  cases hr : r.resolve resourceId with
  | error e' =>
    constructor
    · intro h
      rw [Except.error.inj h] at hr
      exact absurd hr (resolve_ne r resourceId e)
    · intro h
      obtain ⟨canonical,hc,_⟩ := h
      cases hc
  | ok canonical =>
    by_cases hfits : maxResource < canonical.length
    · simp only [dif_pos hfits]
      constructor
      · intro h
        cases h
      · intro h
        obtain ⟨c,hc,hle,_⟩ := h
        cases hc
        exact absurd hle (Nat.not_le.mpr hfits)
    · have hle : canonical.length ≤ maxResource := Nat.le_of_not_lt hfits
      have hiff := admit_fst t intentId (fixed 256 canonical) canonical.length hle nowMs e
      rw [fixed_take 256 canonical hle] at hiff
      simp only [dif_neg hfits]
      have hres : (t.admitError intentId canonical=some e) ↔
          ∃c,(.ok canonical : Except ResolveError Bytes)=.ok c ∧ c.length ≤ maxResource ∧
            t.admitError intentId c=some e := by
        constructor
        · exact fun h => ⟨canonical,rfl,hle,h⟩
        · intro h
          obtain ⟨c,hc,_,h⟩ := h
          cases hc
          exact h
      rw [← hres,← hiff]
      cases t.admit intentId (fixed 256 canonical) canonical.length hle nowMs with
      | mk res t' =>
        cases res with
        | error e' => simp
        | ok _ => simp

end Resolve

/-- A declaration that fails changes nothing; one that succeeds adds a valid form that was not there. -/
theorem add_cases (r : Resolver) (canonical : Bytes) : (∃e,r.add canonical=(.error e,r)) ∨
    r.add canonical=(.ok (),{ r with entries := r.entries++[canonical] }) ∧ validateCanonical canonical=true ∧
      canonical.length ≤ idMax ∧ r.entries.length≠maxResources ∧ canonical∉r.entries := by
  rw [Resolver.add]
  by_cases hv : validateCanonical canonical=false
  · exact Or.inl ⟨_,if_pos hv⟩
  by_cases hl : idMax < canonical.length
  · exact Or.inl ⟨.MalformedCanonical,by rw [if_neg hv,if_pos hl]⟩
  by_cases hf : r.entries.length=maxResources
  · exact Or.inl ⟨.SetFull,by rw [if_neg hv,if_neg hl,if_pos hf]⟩
  by_cases hd : canonical∈r.entries
  · exact Or.inl ⟨.DuplicateEntry,by rw [if_neg hv,if_neg hl,if_neg hf,if_pos hd]⟩
  · refine Or.inr ⟨?_,Bool.eq_true_of_not_eq_false hv,Nat.not_lt.mp hl,hf,hd⟩
    rw [if_neg hv,if_neg hl,if_neg hf,if_neg hd]

theorem addAlias_cases (r : Resolver) (canonical aliasBytes : Bytes) :
    (∃e,r.addAlias canonical aliasBytes=(.error e,r)) ∨
      ∃idx,r.addAlias canonical aliasBytes=(.ok (),{ r with aliases := r.aliases++[⟨aliasBytes,idx⟩] }) ∧
        r.entries[idx]?=some canonical ∧ aliasBytes≠[] ∧ aliasBytes.length ≤ idMax ∧
          r.aliases.length≠maxAliases := by
  rw [Resolver.addAlias]
  by_cases ha : aliasBytes=[] ∨ idMax < aliasBytes.length
  · exact Or.inl ⟨_,if_pos ha⟩
  rw [if_neg ha]
  cases hf : r.findEntry canonical with
  | none => exact Or.inl ⟨_,rfl⟩
  | some idx =>
    obtain ⟨hlt,hp,_⟩ := List.findIdx?_eq_some_iff_getElem.mp hf
    by_cases hc : r.aliases.length=maxAliases
    · exact Or.inl ⟨_,if_pos hc⟩
    · refine Or.inr ⟨idx,if_neg hc,?_,fun h => ha (Or.inl h),Nat.not_lt.mp (fun h => ha (Or.inr h)),hc⟩
      rw [List.getElem?_eq_getElem hlt,beq_iff_eq.mp hp]

/-- A call on the resolver and the table that it admits to. -/
inductive ResolverOp where
  | add (canonical : Bytes)
  | addAlias (canonical aliasBytes : Bytes)
  | resolveAndAdmit (intentId : FixedBytes 16) (resourceId : Bytes) (nowMs : UInt64)

structure Locks where
  resolver : Resolver
  table : Table

def Locks.new (K : Crypto) (sigPubkey : Bytes) : Locks := ⟨Resolver.new K sigPubkey,Table.new⟩

def Locks.call (s : Locks) : ResolverOp → Except ResolveError Unit × Locks
  | .add canonical =>
    let r := s.resolver.add canonical
    (r.1,{ s with resolver := r.2 })
  | .addAlias canonical aliasBytes =>
    let r := s.resolver.addAlias canonical aliasBytes
    (r.1,{ s with resolver := r.2 })
  | .resolveAndAdmit intentId resourceId nowMs =>
    let r := s.resolver.resolveAndAdmit s.table intentId resourceId nowMs
    (r.1,{ s with table := r.2 })

def Locks.after (s : Locks) (op : ResolverOp) : Locks := (s.call op).2

/-- Every entry of the table is for a declared form of this node's own. -/
structure Locks.Keyed (s : Locks) (fp : Bytes) : Prop where
  own : s.resolver.ownFp=fp
  valid : ∀c∈s.resolver.entries,validateCanonical c=true
  sound : s.table.Sound
  declared : ∀e∈s.table.entries,e.resource∈s.resolver.entries ∧ fpOf e.resource=fp

section Runs

variable {s : Locks} {fp : Bytes}

/-- What a call can do: fail without a change, declare, or admit under the canonical form that the
proposed bytes resolve to. -/
inductive Locks.Does (s : Locks) (op : ResolverOp) : Except ResolveError Unit × Locks → Prop where
  | fails (e : ResolveError) : Does s op (.error e,s)
  | declares (canonical : Bytes) (hv : validateCanonical canonical=true) :
      Does s op (.ok (),{ s with resolver.entries := s.resolver.entries++[canonical] })
  | names (a : Alias) : Does s op (.ok (),{ s with resolver.aliases := s.resolver.aliases++[a] })
  | admits (intentId : FixedBytes 16) (resourceId canonical : Bytes) (nowMs : UInt64)
      (hop : op=.resolveAndAdmit intentId resourceId nowMs)
      (ha : Admissible s.resolver s.table intentId resourceId canonical) (t : Table)
      (ht : t.entries=s.table.entries++[admittedEntry intentId canonical ha.fits nowMs]) :
      Does s op (.ok (),{ s with table := t })

theorem call_does (s : Locks) (op : ResolverOp) : s.Does op (s.call op) := by
  cases op with
  | add canonical =>
    obtain ⟨e,he⟩ | ⟨hok,hv,_⟩ := add_cases s.resolver canonical
    · rw [Locks.call,he]
      exact .fails e
    · rw [Locks.call,hok]
      exact .declares canonical hv
  | addAlias canonical aliasBytes =>
    obtain ⟨e,he⟩ | ⟨idx,hok,_⟩ := addAlias_cases s.resolver canonical aliasBytes
    · rw [Locks.call,he]
      exact .fails e
    · rw [Locks.call,hok]
      exact .names ⟨aliasBytes,idx⟩
  | resolveAndAdmit intentId resourceId nowMs =>
    rw [Locks.call]
    by_cases ha : ∃canonical,Admissible s.resolver s.table intentId resourceId canonical
    · obtain ⟨canonical,ha⟩ := ha
      obtain ⟨hok,ht⟩ := resolveAndAdmit_of_admissible nowMs ha
      simp only [hok]
      exact .admits intentId resourceId canonical nowMs rfl ha _ ht
    · obtain ⟨e,he⟩ := resolveAndAdmit_of_not_admissible nowMs (fun c hc => ha ⟨c,hc⟩)
      rw [he]
      exact .fails e

theorem admittedEntry_resource (intentId : FixedBytes 16) (canonical : Bytes) (h : canonical.length ≤ maxResource)
    (nowMs : UInt64) : (admittedEntry intentId canonical h nowMs).resource=canonical :=
  fixed_take 256 canonical h

/-- What resolves is a declared form with the resolver's own fingerprint. -/
theorem resolve_declared {r : Resolver} {proposed c : Bytes} (h : r.resolve proposed=.ok c) :
    c∈r.entries ∧ fpOf c=r.ownFp := by
  obtain ⟨i,hi,_,_,hfp⟩ := (resolve_ok_iff r proposed c).mp h
  exact ⟨List.mem_of_getElem? hi,hfp⟩

theorem Locks.Keyed.after (h : s.Keyed fp) (op : ResolverOp) : (s.after op).Keyed fp := by
  have hdoes := call_does s op
  rw [Locks.after]
  generalize s.call op=r at hdoes
  cases hdoes with
  | fails e => exact h
  | declares canonical hv =>
    refine ⟨h.own,?_,h.sound,?_⟩
    · intro c hc
      obtain hc | hc := List.mem_append.mp hc
      · exact h.valid c hc
      · rw [List.mem_singleton.mp hc]
        exact hv
    · intro e he
      obtain ⟨hin,hfp⟩ := h.declared e he
      exact ⟨List.mem_append_left _ hin,hfp⟩
  | names a => exact ⟨h.own,h.valid,h.sound,h.declared⟩
  | admits intentId resourceId canonical nowMs _ ha t ht =>
    have htakes : s.table.Takes intentId ((fixed 256 canonical).toList.take canonical.length) := by
      rw [fixed_take 256 canonical ha.fits]
      exact ha.takes
    have hmoves : s.table.Moves (.admission intentId (fixed 256 canonical) canonical.length ha.fits nowMs) t :=
      .pushes intentId (fixed 256 canonical) canonical.length ha.fits nowMs rfl htakes ht
    refine ⟨h.own,h.valid,hmoves.sound h.sound,?_⟩
    intro e he
    rw [ht,List.mem_append,List.mem_singleton] at he
    obtain he | rfl := he
    · exact h.declared e he
    · obtain ⟨hin,hfp⟩ := resolve_declared ha.resolves
      rw [admittedEntry_resource]
      exact ⟨hin,hfp.trans h.own⟩

theorem keyed_run (K : Crypto) (sigPubkey : Bytes) (ops : List ResolverOp) :
    (ops.foldl Locks.after (Locks.new K sigPubkey)).Keyed (executorFp K sigPubkey) := by
  have hnew : (Locks.new K sigPubkey).Keyed (executorFp K sigPubkey) :=
    ⟨rfl,fun _ hc => absurd hc List.not_mem_nil,sound_new,fun _ he => absurd he List.not_mem_nil⟩
  generalize Locks.new K sigPubkey=s at hnew
  induction ops generalizing s with
  | nil => exact hnew
  | cons op ops ih => exact ih _ (hnew.after op)

end Runs

/-- The table locks declared forms of this node, each at most once and whatever its spelling; a
spelling resolves exactly if it belongs to one declared entry, which is the node's own; and a call that
fails changes nothing. -/
theorem locks_executor_form (K : Crypto) (sigPubkey : Bytes) (ops : List ResolverOp) :
    let s := ops.foldl Locks.after (Locks.new K sigPubkey)
    s.table.entries.Pairwise (fun a b => a.resource≠b.resource) ∧
      (∀e∈s.table.entries,e.resource∈s.resolver.entries ∧ validateCanonical e.resource=true ∧
        fpOf e.resource=executorFp K sigPubkey) ∧
      (∀e∈s.table.entries,∀intentId resourceId nowMs,s.resolver.resolve resourceId=.ok e.resource →
        ∃err,s.call (.resolveAndAdmit intentId resourceId nowMs)=(.error err,s)) ∧
      (∀proposed c,s.resolver.resolve proposed=.ok c ↔
        ∃i,s.resolver.entries[i]?=some c ∧ s.resolver.Matches i proposed ∧
          (∀j,s.resolver.Matches j proposed → j=i) ∧ fpOf c=executorFp K sigPubkey) ∧
      ∀op err,(s.call op).1=.error err → (s.call op).2=s := by
  intro s
  have h : s.Keyed (executorFp K sigPubkey) := keyed_run K sigPubkey ops
  refine ⟨h.sound.apart,?_,?_,?_,?_⟩
  · intro e he
    obtain ⟨hin,hfp⟩ := h.declared e he
    exact ⟨hin,h.valid _ hin,hfp⟩
  · intro e he intentId resourceId nowMs hr
    have hno : ∀canonical,¬Admissible s.resolver s.table intentId resourceId canonical := by
      intro canonical ha
      have hc := ha.resolves
      rw [hr] at hc
      cases hc
      have hunheld := List.any_eq_false.mp ha.takes.unheld e he
      exact hunheld (decide_eq_true ⟨h.sound.live e he,rfl⟩)
    obtain ⟨err,herr⟩ := resolveAndAdmit_of_not_admissible nowMs hno
    exact ⟨err,by rw [Locks.call,herr]⟩
  · intro proposed c
    rw [resolve_ok_iff,h.own]
  · intro op err herr
    have hdoes := call_does s op
    generalize s.call op=r at hdoes herr
    cases hdoes with
    | fails e => rfl
    | _ => cases herr

end Bolina.Transport
