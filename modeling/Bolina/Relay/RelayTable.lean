import Bolina.Framework.KeyedTable
import Bolina.Framework.Panic
import Bolina.Relay.RelayWire

namespace Bolina.Relay

open Panic KeyedTable

def maxRelayTable : Nat := 4096
def timestampSkew : UInt64 := 300

structure RelayEntry where
  overlayAddr : FixedBytes 16
  relayIndex : UInt32
  clientIndex : UInt32
  expiry : UInt64
  deriving DecidableEq

structure RelayTable where
  entries : List RelayEntry

def RelayTable.new : RelayTable := ⟨[]⟩

/-- An entry of the same address is refreshed in place, before the capacity is looked at. -/
def RelayTable.insert (t : RelayTable) (entry : RelayEntry) : Bool × RelayTable :=
  match refresh RelayEntry.overlayAddr entry t.entries with
  | some entries => (true,⟨entries⟩)
  | none => if maxRelayTable ≤ t.entries.length then (false,t) else (true,⟨t.entries++[entry]⟩)

def RelayTable.lookup (t : RelayTable) (overlayAddr : Bytes) : Option RelayEntry :=
  t.entries.find? (fun e => e.overlayAddr.toList==overlayAddr)

def RelayTable.prune (t : RelayTable) (now : UInt64) : RelayTable :=
  ⟨t.entries.filter (fun e => decide (now < e.expiry))⟩

def RelayTable.count (t : RelayTable) : Nat := t.entries.length

def RelayTable.forwardPacket (t : RelayTable) (route : RelayRoute) (packet : Bytes) (now : UInt64) :
    Option (Except RelayError Bytes) := do
  let latest ← add64 now timestampSkew
  if latest < route.timestamp then return .error .StaleRoute
  else
    let last ← add64 route.timestamp timestampSkew
    if last < now then return .error .StaleRoute
    else if t.entries.any (fun e => e.clientIndex==route.recipientIndex) then return .ok packet
    else return .error .UnknownRecipient

inductive TableCall where
  | insert (entry : RelayEntry)
  | prune (now : UInt64)

def RelayTable.act (t : RelayTable) : TableCall → RelayTable
  | .insert entry => (t.insert entry).2
  | .prune now => t.prune now

/-- The table behind the calls. -/
def RelayTable.after (calls : List TableCall) : RelayTable := calls.foldl RelayTable.act RelayTable.new

/-- The call leaves a registration in the table. -/
def TableCall.Keeps (e : RelayEntry) : TableCall → Prop
  | .insert entry => entry.overlayAddr≠e.overlayAddr
  | .prune now => now < e.expiry

/-- The registration was taken by one of the calls, and its address was not registered
again since nor a sweep made at its expiry or later. -/
def Stands (calls : List TableCall) (e : RelayEntry) : Prop :=
  ∃pre post,calls=pre++.insert e::post ∧ ((RelayTable.after pre).insert e).1=true ∧ ∀call∈post,call.Keeps e

/-- The route's timestamp is within the skew of the time, before or behind it. -/
def Fresh (route : RelayRoute) (now : UInt64) : Prop :=
  route.timestamp.toNat ≤ now.toNat+timestampSkew.toNat ∧ now.toNat ≤ route.timestamp.toNat+timestampSkew.toNat

instance (route : RelayRoute) (now : UInt64) : Decidable (Fresh route now) := inferInstanceAs (Decidable (_ ∧ _))

abbrev RelayTable.Bounded (t : RelayTable) : Prop := KeyedTable.Bounded RelayEntry.overlayAddr maxRelayTable t.entries

section Table

variable {t : RelayTable} {entry e : RelayEntry} {calls : List TableCall}

/-- A new address at a full table is turned away; any other one is in the table behind the call. -/
theorem insert_cases (h : t.Bounded) (entry : RelayEntry) :
    ((∀e∈t.entries,e.overlayAddr≠entry.overlayAddr) ∧ maxRelayTable ≤ t.entries.length ∧ t.insert entry=(false,t)) ∨
      ∃t',t.insert entry=(true,t') ∧ t'.Bounded ∧
        ∀e,e∈t'.entries ↔ e=entry ∨ (e∈t.entries ∧ e.overlayAddr≠entry.overlayAddr) := by
  rw [RelayTable.insert]
  cases hr : refresh RelayEntry.overlayAddr entry t.entries with
  | some entries => exact .inr ⟨⟨entries⟩,rfl,h.of_map (refresh_keys hr),mem_refresh hr h.distinct⟩
  | none =>
    have hnew := refresh_eq_none.mp hr
    dsimp only
    by_cases hfull : maxRelayTable ≤ t.entries.length
    · rw [if_pos hfull]
      exact .inl ⟨hnew,hfull,rfl⟩
    · rw [if_neg hfull]
      refine .inr ⟨_,rfl,h.append entry hnew (not_le.mp hfull),?_⟩
      intro e
      rw [List.mem_append,List.mem_singleton]
      constructor
      · intro he
        obtain he | he := he
        · exact .inr ⟨he,hnew e he⟩
        · exact .inl he
      · intro he
        obtain he | ⟨he,_⟩ := he
        · exact .inr he
        · exact .inl he

theorem act_bounded (h : t.Bounded) (call : TableCall) : (t.act call).Bounded := by
  cases call with
  | insert entry =>
    rw [RelayTable.act]
    obtain ⟨_,_,hi⟩ | ⟨t',hi,hb,_⟩ := insert_cases h entry
    · rw [hi]
      exact h
    · rw [hi]
      exact hb
  | prune now => exact h.filter _

theorem after_concat (calls : List TableCall) (call : TableCall) :
    RelayTable.after (calls++[call])=(RelayTable.after calls).act call := by
  rw [RelayTable.after,List.foldl_append]
  rfl

theorem after_bounded (calls : List TableCall) : (RelayTable.after calls).Bounded := by
  induction calls using List.reverseRecOn with
  | nil => exact KeyedTable.Bounded.nil
  | append_singleton calls call ih =>
    rw [after_concat]
    exact act_bounded ih call

theorem stands_concat (calls : List TableCall) (call : TableCall) (e : RelayEntry) :
    Stands (calls++[call]) e ↔ (Stands calls e ∧ call.Keeps e) ∨
      (call=.insert e ∧ ((RelayTable.after calls).insert e).1=true) := by
  constructor
  · intro h
    obtain ⟨pre,post,hsplit,htaken,hkeeps⟩ := h
    obtain rfl | ⟨post,last,rfl⟩ := post.eq_nil_or_concat
    · obtain ⟨rfl,hlast⟩ := List.append_inj' hsplit rfl
      exact .inr ⟨(List.cons.inj hlast).1,htaken⟩
    · rw [List.concat_eq_append] at hsplit hkeeps
      rw [← List.cons_append,← List.append_assoc] at hsplit
      obtain ⟨hcalls,hlast⟩ := List.append_inj' hsplit rfl
      obtain rfl := (List.cons.inj hlast).1
      exact .inl ⟨⟨pre,post,hcalls,htaken,fun c hc => hkeeps c (List.mem_append_left _ hc)⟩,
        hkeeps call (by simp)⟩
  · intro h
    obtain ⟨⟨pre,post,rfl,htaken,hkeeps⟩,hlast⟩ | ⟨rfl,htaken⟩ := h
    · refine ⟨pre,post++[call],by simp,htaken,?_⟩
      intro c hc
      obtain hc | hc := List.mem_append.mp hc
      · exact hkeeps c hc
      · exact List.mem_singleton.mp hc ▸ hlast
    · exact ⟨calls,[],rfl,htaken,fun c hc => absurd hc List.not_mem_nil⟩

/-- The table holds the registrations that stand, and no others. -/
theorem mem_after (calls : List TableCall) (e : RelayEntry) : e∈(RelayTable.after calls).entries ↔ Stands calls e := by
  induction calls using List.reverseRecOn with
  | nil =>
    refine ⟨fun he => absurd he List.not_mem_nil,?_⟩
    intro h
    obtain ⟨pre,post,hsplit,_⟩ := h
    simp at hsplit
  | append_singleton calls call ih =>
    rw [after_concat,stands_concat,← ih]
    cases call with
    | insert entry =>
      rw [RelayTable.act,TableCall.Keeps]
      obtain ⟨hnew,_,hi⟩ | ⟨t',hi,_,hmem⟩ := insert_cases (after_bounded calls) entry
      · rw [hi]
        constructor
        · intro he
          exact .inl ⟨he,(hnew e he).symm⟩
        · intro he
          obtain ⟨he,_⟩ | ⟨hsame,htaken⟩ := he
          · exact he
          · rw [← TableCall.insert.inj hsame,hi] at htaken
            cases htaken
      · rw [hi,hmem]
        constructor
        · intro he
          obtain rfl | ⟨he,hne⟩ := he
          · exact .inr ⟨rfl,by rw [hi]⟩
          · exact .inl ⟨he,hne.symm⟩
        · intro he
          obtain ⟨he,hne⟩ | ⟨hsame,_⟩ := he
          · exact .inr ⟨he,hne.symm⟩
          · exact .inl (TableCall.insert.inj hsame).symm
    | prune now =>
      rw [RelayTable.act,RelayTable.prune,List.mem_filter,decide_eq_true_eq,TableCall.Keeps]
      simp

end Table

end Bolina.Relay
