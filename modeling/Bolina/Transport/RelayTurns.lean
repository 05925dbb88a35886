import Bolina.Transport.RelayFates

namespace Bolina.RelayStore

open Panic Slots

section Sweep

variable {capacity : Nat} {s : Store capacity} {nowMs : UInt64}

theorem swept_stays {p : StoredPacket} (h : p.expired nowMs=false) : p.swept nowMs=p := by
  rw [StoredPacket.swept,h,Bool.and_false,if_neg Bool.false_ne_true]

theorem swept_inUse {p : StoredPacket} (h : (p.swept nowMs).inUse=true) :
    p.inUse=true ∧ p.expired nowMs=false ∧ p.swept nowMs=p := by
  rw [StoredPacket.swept] at h
  split_ifs at h with hout
  · exact absurd h Bool.false_ne_true
  · have hstays : p.swept nowMs=p := if_neg hout
    rw [h,Bool.true_and,Bool.not_eq_true] at hout
    exact ⟨h,hout,hstays⟩

theorem swept_isFor {p : StoredPacket} {r : Addr} (h : (p.swept nowMs).isFor r=true) :
    p.inUse=true ∧ p.expired nowMs=false ∧ p.swept nowMs=p ∧ p.recipientAddr=r := by
  rw [StoredPacket.isFor,Bool.and_eq_true] at h
  obtain ⟨hin,hfresh,hstays⟩ := swept_inUse h.1
  rw [hstays] at h
  exact ⟨hin,hfresh,hstays,eq_of_beq h.2⟩

theorem isFor_swept {p : StoredPacket} {r : Addr} (hin : p.inUse=true) (hfresh : p.expired nowMs=false)
    (hr : p.recipientAddr=r) : (p.swept nowMs).isFor r=true := by
  rw [swept_stays hfresh,StoredPacket.isFor,hin,hr,Bool.true_and,beq_self_eq_true]

/-- Where a purge sends the packets. -/
def Store.sweeps (s : Store capacity) (nowMs : UInt64) (i : Fin capacity) : Fate capacity :=
  if (s.packets i).expired nowMs then .lost else .waits i

/-- Where a drain sends the packets. -/
def Store.drains (s : Store capacity) (nowMs : UInt64) (i : Fin capacity) (n : Nat) (j : Fin capacity) :
    Fate capacity :=
  if j=i then .drained n else s.sweeps nowMs j

theorem sweeps_stays {i : Fin capacity} (h : (s.packets i).expired nowMs=false) : s.sweeps nowMs i=.waits i := by
  rw [Store.sweeps,h,if_neg Bool.false_ne_true]

theorem sweeps_waits {i j : Fin capacity} (h : s.sweeps nowMs i=.waits j) :
    j=i ∧ (s.packets i).expired nowMs=false := by
  unfold Store.sweeps at h
  split_ifs at h with hout
  exact ⟨(Fate.waits.inj h).symm,by simpa using hout⟩

theorem sweeps_lost {i : Fin capacity} (h : s.sweeps nowMs i=.lost) : (s.packets i).expired nowMs=true := by
  unfold Store.sweeps at h
  split_ifs at h with hout
  exact hout

theorem sweeps_ne_drained (i : Fin capacity) (d : Nat) : s.sweeps nowMs i≠.drained d := by
  unfold Store.sweeps
  split_ifs <;> simp

theorem drains_waits {i j m : Fin capacity} {n : Nat} (h : s.drains nowMs i n j=.waits m) :
    j≠i ∧ m=j ∧ (s.packets j).expired nowMs=false := by
  unfold Store.drains at h
  split_ifs at h with hj
  exact ⟨hj,sweeps_waits h⟩

theorem drains_drained {i j : Fin capacity} {n d : Nat} (h : s.drains nowMs i n j=.drained d) : j=i ∧ d=n := by
  unfold Store.drains at h
  split_ifs at h with hj
  · exact ⟨hj,(Fate.drained.inj h).symm⟩
  · exact absurd h (sweeps_ne_drained j d)

theorem drains_lost {i j : Fin capacity} {n : Nat} (h : s.drains nowMs i n j=.lost) :
    (s.packets j).expired nowMs=true := by
  unfold Store.drains at h
  split_ifs at h
  exact sweeps_lost h

theorem lapses_of_expired {call : Call} {p : StoredPacket} (htime : call.time=some nowMs)
    (h : p.expired nowMs=true) : Lapses call p.storedAtMs := by
  rw [StoredPacket.expired,Bool.and_eq_true,decide_eq_true_eq,decide_eq_true_eq] at h
  exact .inr ⟨nowMs,htime,h⟩

end Sweep

/-- The store takes a slot before that of a packet of the same recipient and time. -/
structure Crosses {capacity : Nat} (s : Store capacity) (r : Addr) (body : Bytes) (nowMs : UInt64) : Prop where
  fits : body.length ≤ maxBody
  count : total (StoredPacket.countFor r) (fun i => (s.packets i).swept nowMs) < maxPerRecipient
  bytes : total (StoredPacket.bytesFor r) (fun i => (s.packets i).swept nowMs)+body.length ≤ maxBytesPerRecipient
  slots : ∃i j,((s.packets i).swept nowMs).inUse=false ∧ (∀m,m < i → ((s.packets m).swept nowMs).inUse=true) ∧
    i < j ∧ (s.packets j).isFor r=true ∧ (s.packets j).storedAtMs=nowMs

def Call.Crosses {capacity : Nat} (s : Store capacity) : Call → Prop
  | .store r _ body nowMs => RelayStore.Crosses s r body nowMs
  | _ => False

section Turns

variable {capacity : Nat} {s s' : Store capacity} {nowMs : UInt64} {r : Addr} {n : Nat}

/-- A call that leaves the slots alone. -/
theorem turn_still {x : Call × Answer} (hout : ∀p,x.2≠.drained (some p)) (hin : x.2≠.stored (.ok ())) :
    Turn n x s s .waits .lost where
  stays _ _ _ hj := ⟨(Fate.waits.inj hj).symm,rfl⟩
  out _ _ _ hd := by cases hd
  ends _ _ hl := by cases hl
  single _ _ _ _ hd := by cases hd
  picks _ _ _ _ hd := by cases hd
  given _ _ p hx := absurd (congrArg Prod.snd hx) (hout p)
  enters _ _ _ _ hx := absurd (congrArg Prod.snd hx) hin
  slots _ hi := .inl ⟨hi,rfl⟩

/-- A call that only sweeps. -/
theorem turn_swept {x : Call × Answer} (htime : x.1.time=some nowMs)
    (hat : ∀i,s'.packets i=(s.packets i).swept nowMs) (hout : ∀p,x.2≠.drained (some p))
    (hin : x.2≠.stored (.ok ())) : Turn n x s s' (s.sweeps nowMs) .lost where
  stays i _ j hj := by
    obtain ⟨rfl,hfresh⟩ := sweeps_waits hj
    exact ⟨rfl,(hat _).trans (swept_stays hfresh)⟩
  out i _ d hd := absurd hd (sweeps_ne_drained i d)
  ends _ _ hl := lapses_of_expired htime (sweeps_lost hl)
  single i _ _ _ hd := absurd hd (sweeps_ne_drained i n)
  picks i _ _ _ hd := absurd hd (sweeps_ne_drained i n)
  given _ _ p hx := absurd (congrArg Prod.snd hx) (hout p)
  enters _ _ _ _ hx := absurd (congrArg Prod.snd hx) hin
  slots i hi := by
    rw [hat] at hi
    obtain ⟨hold,hfresh,_⟩ := swept_inUse hi
    exact .inl ⟨hold,sweeps_stays hfresh⟩

theorem turn_reset : Turn n (.reset,.done) s s.reset (fun _ => .lost) .lost where
  stays _ _ _ hj := by cases hj
  out _ _ _ hd := by cases hd
  ends _ _ _ := .inl rfl
  single _ _ _ _ hd := by cases hd
  picks _ _ _ _ hd := by cases hd
  given _ _ _ hx := by cases hx
  enters _ _ _ _ hx := by cases hx
  slots _ hi := absurd hi Bool.false_ne_true

theorem turn_drained {i : Fin capacity} (hfor : ((s.packets i).swept nowMs).isFor r=true)
    (hmin : ∀j,((s.packets j).swept nowMs).isFor r=true →
      ((s.packets i).swept nowMs).storedAtMs < ((s.packets j).swept nowMs).storedAtMs ∨
        (((s.packets i).swept nowMs).storedAtMs=((s.packets j).swept nowMs).storedAtMs ∧ i ≤ j))
    (hself : (s'.packets i).inUse=false) (hother : ∀j,j≠i → s'.packets j=(s.packets j).swept nowMs) :
    Turn n (.drainNext r nowMs,.drained (some ⟨((s.packets i).swept nowMs).senderIndex,
      ((s.packets i).swept nowMs).body.toList.take ((s.packets i).swept nowMs).bodyLen⟩)) s s'
      (s.drains nowMs i n) .lost := by
  obtain ⟨hold,hfresh,hstays,hr⟩ := swept_isFor hfor
  rw [hstays] at hmin ⊢
  exact {
    stays := by
      intro j _ m hm
      obtain ⟨hj,rfl,hfresh'⟩ := drains_waits hm
      exact ⟨rfl,(hother _ hj).trans (swept_stays hfresh')⟩
    out := by
      intro j _ d hd
      obtain ⟨rfl,rfl⟩ := drains_drained hd
      exact ⟨rfl,nowMs,by rw [hr]⟩
    ends := fun _ _ hl => lapses_of_expired rfl (drains_lost hl)
    single := fun _ _ _ _ hd hd' => (drains_drained hd).1.trans (drains_drained hd').1.symm
    picks := by
      intro k j _ hj hd hw hsame
      obtain ⟨rfl,_⟩ := drains_drained hd
      obtain ⟨hne,_,hfresh'⟩ := drains_waits hw
      obtain hlt | ⟨heq,hle⟩ := hmin j (isFor_swept hj hfresh' (hsame.trans hr))
      · rw [swept_stays hfresh'] at hlt
        exact .inl hlt
      · rw [swept_stays hfresh'] at heq
        exact .inr ⟨heq,lt_of_le_of_ne hle (Ne.symm hne)⟩
    given := by
      intro r' t p hx
      cases hx
      exact ⟨i,hold,hr,if_pos rfl⟩
    enters := fun _ _ _ _ hx => by cases hx
    slots := by
      intro j hj
      have hne : j≠i := by
        intro he
        rw [he,hself] at hj
        cases hj
      rw [hother j hne] at hj
      obtain ⟨hin,hfresh',_⟩ := swept_inUse hj
      exact .inl ⟨hin,(if_neg hne).trans (sweeps_stays hfresh')⟩ }

theorem turn_kept {i : Fin capacity} {senderIndex : UInt32} {body : Bytes}
    (hfree : ((s.packets i).swept nowMs).inUse=false) (hp : Carries (s'.packets i) r senderIndex body nowMs)
    (hother : ∀j,j≠i → s'.packets j=(s.packets j).swept nowMs) :
    Turn n (.store r senderIndex body nowMs,.stored (.ok ())) s s' (s.sweeps nowMs) (.waits i) := by
  -- the packet of a slot that waits is not the one of the free slot
  have hne : ∀j,(s.packets j).inUse=true → (s.packets j).expired nowMs=false → j≠i := by
    intro j hj hfresh he
    rw [← he,swept_stays hfresh,hj] at hfree
    cases hfree
  exact {
    stays := by
      intro j hj m hm
      obtain ⟨rfl,hfresh⟩ := sweeps_waits hm
      exact ⟨rfl,(hother _ (hne _ hj hfresh)).trans (swept_stays hfresh)⟩
    out := fun j _ d hd => absurd hd (sweeps_ne_drained j d)
    ends := fun _ _ hl => lapses_of_expired rfl (sweeps_lost hl)
    single := fun j _ _ _ hd => absurd hd (sweeps_ne_drained j n)
    picks := fun j _ _ _ hd => absurd hd (sweeps_ne_drained j n)
    given := fun _ _ _ hx => by cases hx
    enters := by
      intro r' senderIndex' body' t hx
      cases hx
      refine ⟨i,rfl,hp,?_⟩
      intro j hj hw
      obtain ⟨he,hfresh⟩ := sweeps_waits hw
      exact hne j hj hfresh he.symm
    slots := by
      intro j hj
      by_cases he : j=i
      · exact .inr ⟨by rw [he],r,senderIndex,body,nowMs,rfl⟩
      · rw [hother j he] at hj
        obtain ⟨hin,hfresh,_⟩ := swept_inUse hj
        exact .inl ⟨hin,sweeps_stays hfresh⟩ }

theorem last_lost {gone : Fin capacity → Fate capacity} : Last s s' gone .lost := by
  intro i hi
  cases hi

/-- A packet that is kept comes last, as long as no slot is crossed and time goes on. -/
theorem last_kept {i : Fin capacity} {senderIndex : UInt32} {body : Bytes}
    (hfree : ((s.packets i).swept nowMs).inUse=false) (hp : Carries (s'.packets i) r senderIndex body nowMs)
    (hother : ∀j,j≠i → s'.packets j=(s.packets j).swept nowMs)
    (hpast : ∀j,(s.packets j).inUse=true → (s.packets j).storedAtMs ≤ nowMs)
    (hclear : ∀j,i < j → (s.packets j).isFor r=true → (s.packets j).storedAtMs≠nowMs) :
    Last s s' (s.sweeps nowMs) (.waits i) := by
  intro i' hi j hj hw hsame
  obtain rfl := Fate.waits.inj hi
  obtain ⟨_,hfresh⟩ := sweeps_waits hw
  have hne : j≠i := by
    intro he
    rw [← he,swept_stays hfresh,hj] at hfree
    cases hfree
  have hfor : (s.packets j).isFor r=true := by
    rw [StoredPacket.isFor,hj,hsame,hp.recipient,Bool.true_and,beq_self_eq_true]
  rw [Before,hother j hne,swept_stays hfresh,hp.storedAt]
  by_cases htie : (s.packets j).storedAtMs=nowMs
  · have hle : j ≤ i := not_lt.mp (fun hlt => hclear j hlt hfor htie)
    exact .inr ⟨htie,lt_of_le_of_ne hle hne⟩
  · exact .inl (UInt64.lt_of_le_of_ne (hpast j hj) htie)

end Turns

end Bolina.RelayStore
