import Bolina.Framework.BoundedSet
import Bolina.Framework.FixedBytes
import Bolina.Framework.Lockstep
import Bolina.Framework.Panic

namespace Bolina.Listener

open BigEndian Panic KeyedTable Lockstep

def maxEndpoints : Nat := 8

inductive ListenError where
  | EndpointBusy
  | FamilyMismatch
  | BindRefused
  | SocketFailed
  | RecvFailed
  deriving DecidableEq,Repr

structure Endpoint where
  addr : FixedBytes 16
  addrLen : Nat
  port : UInt16
  deriving DecidableEq

def Endpoint.default : Endpoint := ⟨List.Vector.replicate 16 0,0,0⟩

/-- The test of an entry; the address is sliced only when port and length are those asked for. -/
def Endpoint.covers (e : Endpoint) (addr : Bytes) (port : UInt16) : Option Bool :=
  if e.port=port ∧ e.addrLen=addr.length then do return (← range e.addr.toList 0 e.addrLen)==addr
  else some false

structure EndpointRegistry where
  entries : List.Vector Endpoint maxEndpoints
  count : Nat
  deriving DecidableEq

namespace EndpointRegistry

def new : EndpointRegistry := ⟨List.Vector.replicate _ Endpoint.default,0⟩

def ownsLoop (addr : Bytes) (port : UInt16) : List Endpoint → Option Bool
  | [] => some false
  | e::es => do if ← e.covers addr port then return true else ownsLoop addr port es

def owns (r : EndpointRegistry) (addr : Bytes) (port : UInt16) : Option Bool := do
  ownsLoop addr port (← range r.entries.toList 0 r.count)

def setEntry (r : EndpointRegistry) (i : Nat) (e : Endpoint) : Option EndpointRegistry :=
  if h : i < maxEndpoints then some { r with entries := r.entries.set ⟨i,h⟩ e } else none

/-- The address is copied to the front of the slot; what stood behind it stays. -/
def claim (r : EndpointRegistry) (addr : Bytes) (port : UInt16) :
    Option (Except ListenError Unit × EndpointRegistry) := do
  if ← r.owns addr port then return (.error .EndpointBusy,r)
  else if maxEndpoints ≤ r.count then return (.error .EndpointBusy,r)
  else
    let e ← index r.entries.toList r.count
    let bytes ← exact (← copyTo e.addr.toList addr 0 addr.length) 16
    let r ← r.setEntry r.count ⟨bytes,addr.length,port⟩
    return (.ok (),{ r with count := ← add r.count 1 })

/-- Entry `last` is copied over entry `i`, field by field, unless it is that entry. -/
def fillEntry (r : EndpointRegistry) (i last : Nat) : Option EndpointRegistry :=
  if i≠last then do
    let tmp ← index r.entries.toList last
    r.setEntry i ⟨tmp.addr,tmp.addrLen,tmp.port⟩
  else some r

/-- The last entry takes the place of entry `i`. -/
def vacate (r : EndpointRegistry) (i : Nat) : Option EndpointRegistry := do
  let last ← sub r.count 1
  let r ← r.fillEntry i last
  return { r with count := ← sub r.count 1 }

def releaseLoop (r : EndpointRegistry) (addr : Bytes) (port : UInt16) : List Nat → Option EndpointRegistry
  | [] => some r
  | i::is => do
    let e ← index r.entries.toList i
    if ← e.covers addr port then r.vacate i else releaseLoop r addr port is

def release (r : EndpointRegistry) (addr : Bytes) (port : UInt16) : Option EndpointRegistry :=
  releaseLoop r addr port (List.range r.count)

end EndpointRegistry

inductive Call where
  | claim (addr : Bytes) (port : UInt16)
  | release (addr : Bytes) (port : UInt16)
  deriving DecidableEq

def Call.addr : Call → Bytes
  | .claim addr _ => addr
  | .release addr _ => addr

namespace EndpointRegistry

/-- A release answers nothing. -/
def step (r : EndpointRegistry) : Call → Option (Except ListenError Unit × EndpointRegistry)
  | .claim addr port => r.claim addr port
  | .release addr port => do return (.ok (),← r.release addr port)

def run (r : EndpointRegistry) : List Call → Option (List (Except ListenError Unit) × EndpointRegistry)
  | [] => some ([],r)
  | c::cs => do
    let (a,r) ← r.step c
    let (as,r) ← r.run cs
    return (a::as,r)

end EndpointRegistry

/-- The address of an entry without the bytes behind its length, and the port. -/
def Endpoint.pair (e : Endpoint) : Bytes × UInt16 := (e.addr.toList.take e.addrLen,e.port)

theorem covers_eq {e : Endpoint} {addr : Bytes} {port : UInt16} (h : e.addrLen ≤ 16) :
    e.covers addr port=some (decide (e.pair=(addr,port))) := by
  have hlen : (e.addr.toList.take e.addrLen).length=e.addrLen := by
    rw [List.length_take,List.Vector.toList_length]
    exact Nat.min_eq_left h
  have hin : e.addrLen ≤ e.addr.toList.length := by rwa [List.Vector.toList_length]
  rw [Endpoint.covers,Endpoint.pair]
  by_cases hp : e.port=port ∧ e.addrLen=addr.length
  · rw [if_pos hp,range_front hin]
    simp [hp.1,Bool.beq_eq_decide_eq]
  · rw [if_neg hp]
    have hne : (e.addr.toList.take e.addrLen,e.port)≠(addr,port) := by
      intro he
      obtain ⟨ha,hq⟩ := Prod.mk.inj he
      exact hp ⟨hq,by rw [← ha,hlen]⟩
    rw [decide_eq_false hne]

abbrev EndpointSet := BoundedSet (Bytes × UInt16) maxEndpoints

/-- The set that the calls work on. -/
def setStep (s : EndpointSet) : Call → Except ListenError Unit × EndpointSet
  | .claim addr port => (if s.Takes (addr,port) then .ok () else .error .EndpointBusy,s.add (addr,port))
  | .release addr port => (.ok (),s.remove (addr,port))

namespace EndpointRegistry

/-- The entries in use. -/
def live (r : EndpointRegistry) : List Endpoint := r.entries.toList.take r.count

/-- The entries in use are the members of the set, each once, whatever stands behind them. -/
structure Tracks (r : EndpointRegistry) (s : EndpointSet) : Prop where
  count : r.count ≤ maxEndpoints
  lengths : ∀e∈r.live,e.addrLen ≤ 16
  kept : BoundedSet.Kept (r.live.map Endpoint.pair) s

section Steps

variable {r : EndpointRegistry} {s : EndpointSet} {addr : Bytes} {port : UInt16} {e : Endpoint} {i : Nat}

theorem ownsLoop_eq {es : List Endpoint} (h : ∀e∈es,e.addrLen ≤ 16) :
    ownsLoop addr port es=some (decide ((addr,port)∈es.map Endpoint.pair)) := by
  induction es with
  | nil => rfl
  | cons e es ih =>
    obtain ⟨he,hes⟩ := List.forall_mem_cons.mp h
    rw [ownsLoop,covers_eq he]
    by_cases hp : e.pair=(addr,port)
    · simp [hp]
    · simp [hp,ih hes,Ne.symm hp]

theorem new_tracks : Tracks new BoundedSet.empty where
  count := Nat.zero_le _
  lengths := by simp [live,new]
  kept := BoundedSet.Kept.empty

theorem Tracks.length (h : Tracks r s) : r.live.length=r.count := by
  rw [live,List.length_take,List.Vector.toList_length]
  exact Nat.min_eq_left h.count

theorem Tracks.card (h : Tracks r s) : s.elems.card=r.count := by
  rw [h.kept.card,List.length_map,h.length]

theorem Tracks.owns (h : Tracks r s) : r.owns addr port=some (decide ((addr,port)∈s.elems)) := by
  have hin : r.count ≤ r.entries.toList.length := by
    rw [List.Vector.toList_length]
    exact h.count
  rw [EndpointRegistry.owns,range_front hin]
  simp only [Option.bind_eq_bind,Option.bind_some]
  rw [← live,ownsLoop_eq h.lengths]
  simp only [h.kept.mem]

theorem Tracks.claim_busy (h : Tracks r s) (hx : ¬s.Takes (addr,port)) :
    r.claim addr port=some (.error .EndpointBusy,r) := by
  rw [claim,h.owns]
  simp only [Option.bind_eq_bind,Option.bind_some,decide_eq_true_eq]
  by_cases hm : (addr,port)∈s.elems
  · rw [if_pos hm]
    rfl
  · have hfull : maxEndpoints ≤ r.count := by
      rw [← h.card]
      exact Nat.le_of_not_lt (fun hlt => hx ⟨hm,hlt⟩)
    rw [if_neg hm,if_pos hfull]
    rfl

/-- An address that no slot holds ends the program, where the set has room for it. -/
theorem Tracks.claim_long (h : Tracks r s) (ha : 16 < addr.length) (hx : s.Takes (addr,port)) :
    r.claim addr port=none := by
  have hroom : r.count < maxEndpoints := by
    rw [← h.card]
    exact hx.2
  have hslot : r.count < r.entries.toList.length := by rwa [List.Vector.toList_length]
  have hcopy : copyTo r.entries.toList[r.count].addr.toList addr 0 addr.length=none := by
    rw [copyTo,range,if_neg]
    · rfl
    · rw [List.Vector.toList_length]
      omega
  rw [claim,h.owns,index_eq hslot]
  simp only [Option.bind_eq_bind,Option.bind_some,decide_eq_true_eq]
  rw [if_neg hx.1,if_neg (Nat.not_le.mpr hroom),hcopy]
  rfl

theorem Tracks.claim_taken (h : Tracks r s) (ha : addr.length ≤ 16) (hx : s.Takes (addr,port)) :
    ∃r',r.claim addr port=some (.ok (),r') ∧ Tracks r' (s.add (addr,port)) := by
  have hroom : r.count < maxEndpoints := by
    rw [← h.card]
    exact hx.2
  have hslot : r.count < r.entries.toList.length := by rwa [List.Vector.toList_length]
  generalize hold : r.entries.toList[r.count]=old
  have hcopy : copyTo old.addr.toList addr 0 addr.length=some (addr++old.addr.toList.drop addr.length) :=
    copyTo_next [] old.addr.toList rfl (Nat.zero_add _).symm (by rwa [List.Vector.toList_length])
  have hwide : (addr++old.addr.toList.drop addr.length).length=16 := by
    rw [List.length_append,List.length_drop,List.Vector.toList_length]
    omega
  let bytes : FixedBytes 16 := ⟨_,hwide⟩
  have hexact : exact (addr++old.addr.toList.drop addr.length) 16=some bytes := exact_eq hwide
  let e : Endpoint := ⟨bytes,addr.length,port⟩
  have hpair : e.pair=(addr,port) := Prod.ext List.take_left rfl
  refine ⟨⟨r.entries.set ⟨r.count,hroom⟩ e,r.count+1⟩,?_,?_⟩
  · have hcount : add r.count 1=some (r.count+1) := add_eq (lt_of_le_of_lt hroom (show maxEndpoints < wordLimit by decide))
    rw [claim,h.owns,index_eq hslot,hold]
    simp only [Option.bind_eq_bind,Option.bind_some,decide_eq_true_eq]
    rw [if_neg hx.1,if_neg (Nat.not_le.mpr hroom),hcopy]
    simp only [Option.bind_some,hexact]
    rw [setEntry,dif_pos hroom]
    simp only [Option.bind_some,hcount]
    rfl
  · have hlive : live ⟨r.entries.set ⟨r.count,hroom⟩ e,r.count+1⟩=r.live++[e] := by
      rw [live,List.Vector.toList_set]
      exact BoundedSet.take_set_end hslot e
    refine ⟨hroom,?_,?_⟩
    · intro e' he'
      rw [hlive] at he'
      cases List.mem_append.mp he' with
      | inl hm => exact h.lengths e' hm
      | inr hm =>
        rw [List.mem_singleton.mp hm]
        exact ha
    · rw [hlive,List.map_append,List.map_singleton,hpair]
      exact h.kept.append hx

/-- With and without the copy the last entry then stands at `i`. -/
theorem fillEntry_eq {n : Nat} (hi : i < maxEndpoints) (hn : n < r.entries.toList.length) :
    r.fillEntry i n=some { r with entries := r.entries.set ⟨i,hi⟩ r.entries.toList[n] } := by
  rw [fillEntry]
  by_cases hne : i=n
  · subst hne
    have hsame : r.entries.set ⟨i,hi⟩ r.entries.toList[i]=r.entries := by
      apply Subtype.ext
      exact List.set_getElem_self hn
    rw [if_neg (not_not.mpr rfl),hsame]
  · rw [if_pos hne,index_eq hn]
    exact dif_pos hi

theorem Tracks.vacate (h : Tracks r s) (hi : r.live[i]?=some e) :
    ∃r',r.vacate i=some r' ∧ Tracks r' (s.remove e.pair) := by
  obtain ⟨hlt,_⟩ := List.getElem?_eq_some_iff.mp hi
  rw [h.length] at hlt
  have hcount := h.count
  obtain ⟨n,hn⟩ := Nat.exists_eq_succ_of_ne_zero (Nat.ne_zero_of_lt hlt)
  have hslot : n < r.entries.toList.length := by
    rw [List.Vector.toList_length]
    omega
  have hsub : sub r.count 1=some n := by
    rw [sub_eq (by omega),hn]
    rfl
  have hin : i < maxEndpoints := hlt.trans_le hcount
  have hlive : live ⟨r.entries.set ⟨i,hin⟩ r.entries.toList[n],n⟩=swapRemove r.live i := by
    rw [live,List.Vector.toList_set,live,hn]
    exact (BoundedSet.swapRemove_take hslot).symm
  refine ⟨⟨r.entries.set ⟨i,hin⟩ r.entries.toList[n],n⟩,?_,show n ≤ maxEndpoints by omega,?_,?_⟩
  · rw [EndpointRegistry.vacate,hsub]
    simp only [Option.bind_eq_bind,Option.bind_some,fillEntry_eq hin hslot,hsub]
    rfl
  · intro e' he'
    rw [hlive] at he'
    exact h.lengths e' ((swapRemove_perm r.live i e hi).mem_iff.mp (List.mem_cons_of_mem _ he'))
  · rw [hlive,BoundedSet.map_swapRemove]
    apply h.kept.swapRemove
    rw [List.getElem?_map,hi]
    rfl

/-- The first index with an entry for the pair is vacated. -/
theorem Tracks.releaseLoop (h : Tracks r s) (addr : Bytes) (port : UInt16) (is : List Nat) (his : ∀i∈is,i < r.count) :
    (∃i∈is,∃e,r.live[i]?=some e ∧ e.pair=(addr,port) ∧ releaseLoop r addr port is=r.vacate i) ∨
      ((∀i∈is,∀e,r.live[i]?=some e → e.pair≠(addr,port)) ∧ releaseLoop r addr port is=some r) := by
  induction is with
  | nil => exact .inr ⟨by simp,rfl⟩
  | cons i is ih =>
    obtain ⟨hi,his⟩ := List.forall_mem_cons.mp his
    have hslot : i < r.entries.toList.length := by
      rw [List.Vector.toList_length]
      exact hi.trans_le h.count
    have hlive : r.live[i]?=some r.entries.toList[i] := by
      rw [live,List.getElem?_take_of_lt hi,List.getElem?_eq_getElem hslot]
    have hlen := h.lengths _ (List.mem_of_getElem? hlive)
    have hloop : EndpointRegistry.releaseLoop r addr port (i::is)=
        if r.entries.toList[i].pair=(addr,port) then r.vacate i else EndpointRegistry.releaseLoop r addr port is := by
      rw [EndpointRegistry.releaseLoop,index_eq hslot]
      simp only [Option.bind_eq_bind,Option.bind_some,covers_eq hlen,decide_eq_true_eq]
    by_cases hp : r.entries.toList[i].pair=(addr,port)
    · rw [if_pos hp] at hloop
      exact .inl ⟨i,List.mem_cons_self,_,hlive,hp,hloop⟩
    · rw [if_neg hp] at hloop
      rw [hloop]
      cases ih his with
      | inl hfound =>
        obtain ⟨j,hj,hrest⟩ := hfound
        exact .inl ⟨j,List.mem_cons_of_mem _ hj,hrest⟩
      | inr hnone =>
        refine .inr ⟨?_,hnone.2⟩
        intro j hj e he
        cases List.mem_cons.mp hj with
        | inl heq =>
          rw [heq,hlive] at he
          rwa [← Option.some.inj he]
        | inr hj => exact hnone.1 j hj e he

theorem Tracks.release (h : Tracks r s) (addr : Bytes) (port : UInt16) :
    ∃r',r.release addr port=some r' ∧ Tracks r' (s.remove (addr,port)) := by
  rw [EndpointRegistry.release]
  cases h.releaseLoop addr port (List.range r.count) (fun i hi => List.mem_range.mp hi) with
  | inl hfound =>
    obtain ⟨i,_,e,he,hp,hloop⟩ := hfound
    rw [hloop,← hp]
    exact h.vacate he
  | inr hnone =>
    refine ⟨r,hnone.2,h.count,h.lengths,h.kept.remove_absent ?_⟩
    intro hm
    obtain ⟨e,he,hp⟩ := List.mem_map.mp hm
    obtain ⟨i,hi⟩ := List.mem_iff_getElem?.mp he
    obtain ⟨hlt,_⟩ := List.getElem?_eq_some_iff.mp hi
    rw [h.length] at hlt
    exact hnone.1 i (List.mem_range.mpr hlt) e hi hp

theorem Tracks.step (h : Tracks r s) (c : Call) (hc : c.addr.length ≤ 16) :
    ∃r',r.step c=some ((setStep s c).1,r') ∧ Tracks r' (setStep s c).2 := by
  cases c with
  | claim addr port =>
    by_cases hx : s.Takes (addr,port)
    · simp only [setStep,if_pos hx]
      exact h.claim_taken hc hx
    · simp only [setStep,if_neg hx,BoundedSet.add_of_not_takes hx]
      exact ⟨r,h.claim_busy hx,h⟩
  | release addr port =>
    obtain ⟨r',hr,h'⟩ := h.release addr port
    refine ⟨r',?_,h'⟩
    rw [EndpointRegistry.step,hr]
    rfl

end Steps

theorem Tracks.run {r : EndpointRegistry} {s : EndpointSet} (h : Tracks r s) (calls : List Call)
    (hc : ∀c∈calls,c.addr.length ≤ 16) :
    ∃r',r.run calls=some (answers setStep s calls,r') ∧ Tracks r' (after setStep s calls) := by
  induction calls generalizing r s with
  | nil => exact ⟨r,rfl,h⟩
  | cons c calls ih =>
    obtain ⟨hfirst,hrest⟩ := List.forall_mem_cons.mp hc
    obtain ⟨r₁,hstep,h₁⟩ := h.step c hfirst
    obtain ⟨r',hrun,h'⟩ := ih h₁ hrest
    refine ⟨r',?_,h'⟩
    rw [EndpointRegistry.run,hstep]
    simp only [Option.bind_eq_bind,Option.bind_some,hrun]
    rfl

end EndpointRegistry

/-- What the callers of a registry that is the set `s` see of it. -/
structure BehavesAs (r : EndpointRegistry) (s : EndpointSet) : Prop where
  count : r.count=s.elems.card
  owns : ∀addr port,r.owns addr port=some (decide ((addr,port)∈s.elems))
  busy : ∀addr port,addr.length ≤ 16 →
    ((∃r',r.claim addr port=some (.error .EndpointBusy,r')) ↔ (addr,port)∈s.elems ∨ s.elems.card=maxEndpoints)
  unchanged : ∀addr port e r',addr.length ≤ 16 → r.claim addr port=some (.error e,r') → r'=r
  claimed : ∀addr port,addr.length ≤ 16 → (addr,port)∉s.elems → s.elems.card < maxEndpoints →
    ∃r',r.claim addr port=some (.ok (),r') ∧
      ∀a p,r'.owns a p=some (decide ((a,p)∈insert (addr,port) s.elems))
  released : ∀addr port,∃r',r.release addr port=some r' ∧
    ∀a p,r'.owns a p=some (decide ((a,p)∈s.elems.erase (addr,port)))

theorem EndpointRegistry.Tracks.behaves {r : EndpointRegistry} {s : EndpointSet} (h : r.Tracks s) :
    BehavesAs r s where
  count := h.card.symm
  owns _ _ := h.owns
  busy addr port ha := by
    rw [← BoundedSet.not_takes]
    constructor
    · intro hb hx
      obtain ⟨r₁,hr₁⟩ := hb
      obtain ⟨r₂,hr₂,_⟩ := h.claim_taken ha hx
      rw [hr₁] at hr₂
      cases hr₂
    · intro hx
      exact ⟨r,h.claim_busy hx⟩
  unchanged addr port e r' ha he := by
    by_cases hx : s.Takes (addr,port)
    · obtain ⟨r₁,hr₁,_⟩ := h.claim_taken ha hx
      rw [hr₁] at he
      cases he
    · rw [h.claim_busy hx] at he
      cases he
      rfl
  claimed addr port ha hnew hroom := by
    obtain ⟨r',hr',h'⟩ := h.claim_taken ha ⟨hnew,hroom⟩
    refine ⟨r',hr',?_⟩
    intro a p
    rw [h'.owns,BoundedSet.add_of_takes ⟨hnew,hroom⟩]
  released addr port := by
    obtain ⟨r',hr',h'⟩ := h.release addr port
    exact ⟨r',hr',fun _ _ => h'.owns⟩

/-- No call panics, each gets the answer that the set gives, and the registry is the set. -/
theorem registry_is_set (calls : List Call) (h : ∀c∈calls,c.addr.length ≤ 16) :
    ∃r,EndpointRegistry.new.run calls=some (answers setStep BoundedSet.empty calls,r) ∧
      BehavesAs r (after setStep BoundedSet.empty calls) := by
  obtain ⟨r,hr,ht⟩ := EndpointRegistry.new_tracks.run calls h
  exact ⟨r,hr,ht.behaves⟩

/-- Two addresses of which one starts the other, and a slot that is filled again. -/
def sampleCalls : List Call :=
  [.claim [10,0,0,1,7] 443,.claim [10,0,0,1] 443,.release [10,0,0,1,7] 443,.claim [10,0] 443,.claim [10,0,0,1] 443]

theorem registry_is_set_sample :
    ∃r,EndpointRegistry.new.run sampleCalls=some (answers setStep BoundedSet.empty sampleCalls,r) ∧
      BehavesAs r (after setStep BoundedSet.empty sampleCalls) :=
  registry_is_set sampleCalls (by decide)

example : ((EndpointRegistry.new.run sampleCalls).bind (fun p => p.2.owns [10,0,0,1] 443))=some true := by
  decide +kernel

end Bolina.Listener
