import Bolina.Relay.RelayTable

namespace Bolina.Relay

open Panic KeyedTable

section Refresh

variable {t : RelayTable} {entry : RelayEntry}

theorem lookup_mem (h : t.Bounded) (hentry : entry∈t.entries) : t.lookup entry.overlayAddr.toList=some entry := by
  rw [RelayTable.lookup]
  cases hfind : t.entries.find? (fun e => e.overlayAddr.toList==entry.overlayAddr.toList) with
  | none =>
    have hnone := List.find?_eq_none.mp hfind entry hentry
    simp at hnone
  | some e =>
    have hsame : e.overlayAddr.toList=entry.overlayAddr.toList := by simpa using List.find?_some hfind
    rw [List.inj_on_of_nodup_map h.distinct (List.mem_of_find?_eq_some hfind) hentry (List.Vector.eq _ _ hsame)]

/-- A registration of an address in the table is a refresh, at capacity as well. -/
theorem insert_refresh (h : t.Bounded) (hold : ∃e∈t.entries,e.overlayAddr=entry.overlayAddr) :
    ∃t',t.insert entry=(true,t') ∧ t'.count=t.count ∧ t'.lookup entry.overlayAddr.toList=some entry := by
  cases hr : refresh RelayEntry.overlayAddr entry t.entries with
  | none =>
    obtain ⟨e,he,hsame⟩ := hold
    exact absurd hsame (refresh_eq_none.mp hr e he)
  | some entries =>
    have hkeys := refresh_keys hr
    refine ⟨⟨entries⟩,by rw [RelayTable.insert,hr],by simpa [RelayTable.count] using congrArg List.length hkeys,?_⟩
    exact lookup_mem (h.of_map hkeys) ((mem_refresh hr h.distinct entry).mpr (.inl rfl))

end Refresh

/-- The sum of a time and the skew, where it fits. -/
theorem add_skew {a : UInt64} (h : a.toNat+300 < wordLimit) :
    add64 a timestampSkew=some (a+timestampSkew) ∧ (a+timestampSkew).toNat=a.toNat+300 := by
  have hskew : timestampSkew.toNat=300 := rfl
  refine ⟨if_pos h,?_⟩
  rw [UInt64.toNat_add,hskew]
  exact Nat.mod_eq_of_lt h

section Forward

variable (t : RelayTable) (route : RelayRoute) (packet : Bytes) {now : UInt64}

theorem forward_eq (h : now.toNat < 2^63) : t.forwardPacket route packet now=some
    (if Fresh route now then
      if t.entries.any (fun e => e.clientIndex==route.recipientIndex) then .ok packet
      else .error .UnknownRecipient
    else .error .StaleRoute) := by
  have hskew : timestampSkew.toNat=300 := rfl
  obtain ⟨hlatest,hnat⟩ := add_skew (a := now) (by rw [wordLimit]; omega)
  rw [RelayTable.forwardPacket,hlatest]
  simp only [Option.bind_eq_bind,Option.bind_some]
  by_cases hahead : now+timestampSkew < route.timestamp
  · have hstale : ¬Fresh route now := by
      rw [UInt64.lt_iff_toNat_lt,hnat] at hahead
      intro hfresh
      have hle := hfresh.1
      omega
    rw [if_pos hahead,if_neg hstale]
    rfl
  · rw [UInt64.lt_iff_toNat_lt,hnat] at hahead
    obtain ⟨hlast,hnat'⟩ := add_skew (a := route.timestamp) (by rw [wordLimit]; omega)
    rw [if_neg (by rw [UInt64.lt_iff_toNat_lt,hnat]; exact hahead),hlast]
    simp only [Option.bind_some]
    by_cases hbehind : route.timestamp+timestampSkew < now
    · have hstale : ¬Fresh route now := by
        rw [UInt64.lt_iff_toNat_lt,hnat'] at hbehind
        intro hfresh
        have hle := hfresh.2
        omega
      rw [if_pos hbehind,if_neg hstale]
      rfl
    · have hfresh : Fresh route now := by
        rw [UInt64.lt_iff_toNat_lt,hnat'] at hbehind
        constructor <;> omega
      rw [if_neg hbehind,if_pos hfresh]
      split_ifs <;> rfl

theorem forward_iff (h : now.toNat < 2^63) : ∃r,t.forwardPacket route packet now=some r ∧
    (r=.ok packet ↔ Fresh route now ∧ ∃e∈t.entries,e.clientIndex=route.recipientIndex) := by
  refine ⟨_,forward_eq t route packet h,?_⟩
  have hany : t.entries.any (fun e => e.clientIndex==route.recipientIndex)=true ↔
      ∃e∈t.entries,e.clientIndex=route.recipientIndex := by simp
  rw [← hany]
  by_cases hfresh : Fresh route now
  · rw [if_pos hfresh]
    by_cases hfound : t.entries.any (fun e => e.clientIndex==route.recipientIndex)=true
    · rw [if_pos hfound]
      exact iff_of_true rfl ⟨hfresh,hfound⟩
    · rw [if_neg hfound]
      exact iff_of_false (by simp) (fun h => hfound h.2)
  · rw [if_neg hfresh]
    exact iff_of_false (by simp) (fun h => hfresh h.1)

end Forward

theorem stands_pruned (calls : List TableCall) (now : UInt64) (e : RelayEntry) :
    Stands (calls++[.prune now]) e ↔ Stands calls e ∧ now < e.expiry := by
  rw [stands_concat]
  simp [TableCall.Keeps]

theorem forward_stands (calls : List TableCall) (route : RelayRoute) (packet : Bytes) {now : UInt64}
    (h : now.toNat < 2^63) : ∃r,(RelayTable.after calls).forwardPacket route packet now=some r ∧
      (r=.ok packet ↔ Fresh route now ∧ ∃e,Stands calls e ∧ e.clientIndex=route.recipientIndex) := by
  obtain ⟨r,hr,hiff⟩ := forward_iff (RelayTable.after calls) route packet h
  simp only [mem_after] at hiff
  exact ⟨r,hr,hiff⟩

/-- A packet is forwarded when its route is fresh and a registration of the recipient
stands: taken, not replaced, and not yet swept at its expiry or later. Behind a sweep
these are the ones that have not expired. -/
theorem forward_registered (calls : List TableCall) (route : RelayRoute) (packet : Bytes) (now : UInt64)
    (h : now.toNat < 2^63) :
    (∃r,(RelayTable.after calls).forwardPacket route packet now=some r ∧
      (r=.ok packet ↔ Fresh route now ∧ ∃e,Stands calls e ∧ e.clientIndex=route.recipientIndex)) ∧
    (∃r,(RelayTable.after (calls++[.prune now])).forwardPacket route packet now=some r ∧
      (r=.ok packet ↔ Fresh route now ∧ ∃e,Stands calls e ∧ e.clientIndex=route.recipientIndex ∧ now < e.expiry)) ∧
    (RelayTable.after calls).Bounded ∧
    ∀entry,(∃e∈(RelayTable.after calls).entries,e.overlayAddr=entry.overlayAddr) →
      ∃t,(RelayTable.after calls).insert entry=(true,t) ∧ t.count=(RelayTable.after calls).count ∧
        t.lookup entry.overlayAddr.toList=some entry := by
  refine ⟨forward_stands calls route packet h,?_,after_bounded calls,
    fun entry hold => insert_refresh (after_bounded calls) hold⟩
  obtain ⟨r,hr,hiff⟩ := forward_stands (calls++[.prune now]) route packet h
  simp only [stands_pruned,and_assoc] at hiff
  exact ⟨r,hr,hiff.trans (and_congr_right fun _ => exists_congr fun e => and_congr_right fun _ => and_comm)⟩

def sampleEntry : RelayEntry := ⟨fixed 16 [1],0,42,100⟩

theorem forward_registered_sample :
    ∃r,(RelayTable.after [.insert sampleEntry]).forwardPacket ⟨0,42,50⟩ [1,2] 60=some r ∧
      (r=.ok [1,2] ↔ Fresh ⟨0,42,50⟩ 60 ∧ ∃e,Stands [.insert sampleEntry] e ∧ e.clientIndex=42) :=
  (forward_registered [.insert sampleEntry] ⟨0,42,50⟩ [1,2] 60 (by decide)).1

/-- A registration that has expired is good for a packet as long as no sweep has run. -/
theorem expired_registration_forwards : ∃calls route packet now,now.toNat < 2^63 ∧
    (RelayTable.after calls).forwardPacket route packet now=some (.ok packet) ∧
    ¬∃e,.insert e∈calls ∧ e.clientIndex=route.recipientIndex ∧ now < e.expiry := by
  refine ⟨[.insert sampleEntry],⟨0,42,500⟩,[1,2],500,by decide,by rfl,?_⟩
  intro hlive
  obtain ⟨e,he,_,hexpiry⟩ := hlive
  obtain rfl := TableCall.insert.inj (List.mem_singleton.mp he)
  exact absurd hexpiry (by decide)

end Bolina.Relay
