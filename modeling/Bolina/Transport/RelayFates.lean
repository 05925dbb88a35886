import Bolina.Transport.RelayStoreState

namespace Bolina.RelayStore

open Panic Slots

abbrev History := List (Call × Answer)

def Call.time : Call → Option UInt64
  | .store _ _ _ nowMs => some nowMs
  | .drainNext _ nowMs => some nowMs
  | .purgeExpired nowMs => some nowMs
  | .reset => none

/-- The `k`-th call stored a packet. -/
def StoredAt (hist : History) (k : Nat) (r : Addr) (senderIndex : UInt32) (body : Bytes) (nowMs : UInt64) : Prop :=
  hist[k]?=some (.store r senderIndex body nowMs,.stored (.ok ()))

/-- The `d`-th call gave a packet out. -/
def DrainedAt (hist : History) (d : Nat) (r : Addr) (p : DrainedPacket) : Prop :=
  ∃nowMs,hist[d]?=some (.drainNext r nowMs,.drained (some p))

/-- The call ends a packet of that time: by its age, or by a reset. -/
def Lapses (call : Call) (storedAtMs : UInt64) : Prop :=
  call=.reset ∨ ∃nowMs,call.time=some nowMs ∧ storedAtMs ≤ nowMs ∧ ttlMs ≤ nowMs-storedAtMs

/-- What has become of a stored packet: it waits in a slot, or it was given out by a
later call, or it is lost. -/
inductive Fate (capacity : Nat) where
  | waits (i : Fin capacity)
  | drained (d : Nat)
  | lost
  deriving DecidableEq

/-- Every packet that was stored has one fate, no two share a slot or a drain, and
every slot in use and every drain is the fate of a packet. -/
structure Accounts {capacity : Nat} (hist : History) (s : Store capacity) (fate : Nat → Fate capacity) : Prop where
  waits : ∀k r senderIndex body nowMs,StoredAt hist k r senderIndex body nowMs → ∀i,fate k=.waits i →
    Carries (s.packets i) r senderIndex body nowMs
  drained : ∀k r senderIndex body nowMs,StoredAt hist k r senderIndex body nowMs → ∀d,fate k=.drained d →
    k < d ∧ DrainedAt hist d r ⟨senderIndex,body⟩
  lost : ∀k r senderIndex body nowMs,StoredAt hist k r senderIndex body nowMs → fate k=.lost →
    ∃e x,k < e ∧ hist[e]?=some x ∧ Lapses x.1 nowMs
  apart : ∀k r senderIndex body nowMs,StoredAt hist k r senderIndex body nowMs →
    ∀k' r' senderIndex' body' nowMs',StoredAt hist k' r' senderIndex' body' nowMs' →
      fate k=fate k' → fate k≠.lost → k=k'
  slots : ∀i,(s.packets i).inUse=true →
    ∃k r senderIndex body nowMs,StoredAt hist k r senderIndex body nowMs ∧ fate k=.waits i
  drains : ∀d r p,DrainedAt hist d r p →
    ∃k senderIndex body nowMs,StoredAt hist k r senderIndex body nowMs ∧ fate k=.drained d

section Concat

variable {hist : History} {x : Call × Answer}

theorem getElem?_concat {k : Nat} {y : Call × Answer} :
    (hist++[x])[k]?=some y ↔ hist[k]?=some y ∨ (k=hist.length ∧ x=y) := by
  obtain hlt | rfl | hgt := lt_trichotomy k hist.length
  · rw [List.getElem?_append_left hlt]
    exact ⟨.inl,fun h => h.elim id (fun he => absurd he.1 (ne_of_lt hlt))⟩
  · rw [List.getElem?_concat_length,List.getElem?_eq_none le_rfl]
    simp
  · rw [List.getElem?_eq_none (by simp; omega),List.getElem?_eq_none hgt.le]
    simp only [reduceCtorEq,false_or,false_iff,not_and]
    exact fun he => absurd he (ne_of_gt hgt)

theorem storedAt_concat {k : Nat} {r : Addr} {senderIndex : UInt32} {body : Bytes} {nowMs : UInt64} :
    StoredAt (hist++[x]) k r senderIndex body nowMs ↔ StoredAt hist k r senderIndex body nowMs ∨
      (k=hist.length ∧ x=(.store r senderIndex body nowMs,.stored (.ok ()))) := getElem?_concat

theorem StoredAt.lt {k : Nat} {r : Addr} {senderIndex : UInt32} {body : Bytes} {nowMs : UInt64}
    (h : StoredAt hist k r senderIndex body nowMs) : k < hist.length := by
  by_contra hle
  rw [StoredAt,List.getElem?_eq_none (not_lt.mp hle)] at h
  cases h

theorem DrainedAt.concat {d : Nat} {r : Addr} {p : DrainedPacket} (h : DrainedAt hist d r p) :
    DrainedAt (hist++[x]) d r p := by
  obtain ⟨nowMs,h⟩ := h
  exact ⟨nowMs,getElem?_concat.mpr (.inl h)⟩

end Concat

/-- The fates after a call: the slots' packets go where `gone` says, and the packet of
the call itself has the fate `new`. -/
def nextFate {capacity : Nat} (n : Nat) (gone : Fin capacity → Fate capacity) (new : Fate capacity)
    (fate : Nat → Fate capacity) (k : Nat) : Fate capacity :=
  if k=n then new
  else
    match fate k with
    | .waits i => gone i
    | .drained d => .drained d
    | .lost => .lost

/-- One slot's packet is to be given out before the other's. -/
def Before {capacity : Nat} (s : Store capacity) (i j : Fin capacity) : Prop :=
  (s.packets i).storedAtMs < (s.packets j).storedAtMs ∨
    ((s.packets i).storedAtMs=(s.packets j).storedAtMs ∧ i < j)

/-- What one call does to the slots, told by where their packets go. -/
structure Turn {capacity : Nat} (n : Nat) (x : Call × Answer) (s s' : Store capacity)
    (gone : Fin capacity → Fate capacity) (new : Fate capacity) : Prop where
  stays : ∀i,(s.packets i).inUse=true → ∀j,gone i=.waits j → j=i ∧ s'.packets i=s.packets i
  out : ∀i,(s.packets i).inUse=true → ∀d,gone i=.drained d → d=n ∧ ∃nowMs,
    x=(.drainNext (s.packets i).recipientAddr nowMs,
      .drained (some ⟨(s.packets i).senderIndex,(s.packets i).body.toList.take (s.packets i).bodyLen⟩))
  ends : ∀i,(s.packets i).inUse=true → gone i=.lost → Lapses x.1 (s.packets i).storedAtMs
  single : ∀i j,(s.packets i).inUse=true → (s.packets j).inUse=true → gone i=.drained n → gone j=.drained n → i=j
  picks : ∀i j,(s.packets i).inUse=true → (s.packets j).inUse=true → gone i=.drained n → gone j=.waits j →
    (s.packets j).recipientAddr=(s.packets i).recipientAddr → Before s i j
  given : ∀r nowMs p,x=(.drainNext r nowMs,.drained (some p)) →
    ∃i,(s.packets i).inUse=true ∧ (s.packets i).recipientAddr=r ∧ gone i=.drained n
  enters : ∀r senderIndex body nowMs,x=(.store r senderIndex body nowMs,.stored (.ok ())) →
    ∃i,new=.waits i ∧ Carries (s'.packets i) r senderIndex body nowMs ∧
      ∀j,(s.packets j).inUse=true → gone j≠.waits i
  slots : ∀i,(s'.packets i).inUse=true → ((s.packets i).inUse=true ∧ gone i=.waits i) ∨
    (new=.waits i ∧ ∃r senderIndex body nowMs,x=(.store r senderIndex body nowMs,.stored (.ok ())))

/-- The packet of the call itself comes behind those of its recipient that wait. -/
def Last {capacity : Nat} (s s' : Store capacity) (gone : Fin capacity → Fate capacity) (new : Fate capacity) : Prop :=
  ∀i,new=.waits i → ∀j,(s.packets j).inUse=true → gone j=.waits j →
    (s.packets j).recipientAddr=(s'.packets i).recipientAddr → Before s' j i

section Account

variable {capacity : Nat} {hist : History} {s s' : Store capacity} {fate : Nat → Fate capacity} {x : Call × Answer}
  {gone : Fin capacity → Fate capacity} {new : Fate capacity}

theorem accounts_new (capacity : Nat) : Accounts [] (Store.new capacity) (fun _ => .lost) where
  waits k _ _ _ _ h := absurd h.lt (Nat.not_lt_zero k)
  drained k _ _ _ _ h := absurd h.lt (Nat.not_lt_zero k)
  lost k _ _ _ _ h := absurd h.lt (Nat.not_lt_zero k)
  apart k _ _ _ _ h := absurd h.lt (Nat.not_lt_zero k)
  slots _ h := absurd h Bool.false_ne_true
  drains d r p h := by
    obtain ⟨nowMs,h⟩ := h
    rw [List.getElem?_nil] at h
    cases h

theorem nextFate_self (n : Nat) : nextFate n gone new fate n=new := if_pos rfl

theorem nextFate_old {n k : Nat} (h : k < n) : nextFate n gone new fate k=
    match fate k with
    | .waits i => gone i
    | .drained d => .drained d
    | .lost => .lost := if_neg (ne_of_lt h)

theorem DrainedAt.lt {d : Nat} {r : Addr} {p : DrainedPacket} (h : DrainedAt hist d r p) : d < hist.length := by
  obtain ⟨nowMs,h⟩ := h
  by_contra hle
  rw [List.getElem?_eq_none (not_lt.mp hle)] at h
  cases h

/-- An old packet's fate is that of its slot, or the one that it had. -/
theorem Accounts.old (h : Accounts hist s fate) (gone : Fin capacity → Fate capacity) (new : Fate capacity) {k : Nat}
    {r : Addr} {senderIndex : UInt32} {body : Bytes} {nowMs : UInt64} (hk : StoredAt hist k r senderIndex body nowMs) :
    (∃i,fate k=.waits i ∧ Carries (s.packets i) r senderIndex body nowMs ∧
      nextFate hist.length gone new fate k=gone i) ∨
      ((∀i,fate k≠.waits i) ∧ nextFate hist.length gone new fate k=fate k) := by
  rw [nextFate_old hk.lt]
  cases hf : fate k with
  | waits i => exact .inl ⟨i,rfl,h.waits k _ _ _ _ hk i hf,rfl⟩
  | drained d => exact .inr ⟨by simp,rfl⟩
  | lost => exact .inr ⟨by simp,rfl⟩

/-- The packet of a slot does not get the fate of one that is out of the slots, unless
both are lost. -/
theorem Accounts.gone_ne (h : Accounts hist s fate) (ht : Turn hist.length x s s' gone new) {k : Nat} {r : Addr}
    {senderIndex : UInt32} {body : Bytes} {nowMs : UInt64} (hk : StoredAt hist k r senderIndex body nowMs)
    (hno : ∀i,fate k≠.waits i) {i : Fin capacity} (hin : (s.packets i).inUse=true) (hne : gone i≠.lost) :
    gone i≠fate k := by
  intro heq
  cases hg : gone i with
  | waits m => exact hno m (heq.symm.trans hg)
  | drained d =>
    obtain ⟨rfl,_⟩ := ht.out i hin d hg
    exact absurd (h.drained k _ _ _ _ hk _ (heq.symm.trans hg)).2.lt (lt_irrefl _)
  | lost => exact hne hg

/-- The packets of two slots get fates of their own. -/
theorem Turn.gone_inj {n : Nat} (ht : Turn n x s s' gone new) {i j : Fin capacity} (hi : (s.packets i).inUse=true)
    (hj : (s.packets j).inUse=true) (heq : gone i=gone j) (hne : gone i≠.lost) : i=j := by
  cases hg : gone i with
  | waits m =>
    obtain ⟨rfl,_⟩ := ht.stays i hi m hg
    exact (ht.stays j hj _ (heq.symm.trans hg)).1
  | drained d =>
    obtain ⟨rfl,_⟩ := ht.out i hi d hg
    exact ht.single i j hi hj hg (heq.symm.trans hg)
  | lost => exact absurd hg hne

/-- An old packet and the new one have fates of their own. -/
theorem Accounts.apart_new (h : Accounts hist s fate) (ht : Turn hist.length x s s' gone new) {k : Nat} {r r' : Addr}
    {senderIndex senderIndex' : UInt32} {body body' : Bytes} {nowMs nowMs' : UInt64}
    (hk : StoredAt hist k r senderIndex body nowMs)
    (hx : x=(.store r' senderIndex' body' nowMs',.stored (.ok ()))) :
    nextFate hist.length gone new fate k≠new := by
  obtain ⟨i,hi,_,hfree⟩ := ht.enters _ _ _ _ hx
  intro heq
  obtain ⟨j,hj,hc,he⟩ | ⟨hno,he⟩ := h.old gone new hk
  · exact hfree j hc.inUse (he.symm.trans (heq.trans hi))
  · exact hno i (he.symm.trans (heq.trans hi))

theorem Accounts.apart_old (h : Accounts hist s fate) (ht : Turn hist.length x s s' gone new) {k k' : Nat} {r r' : Addr}
    {senderIndex senderIndex' : UInt32} {body body' : Bytes} {nowMs nowMs' : UInt64}
    (hk : StoredAt hist k r senderIndex body nowMs) (hk' : StoredAt hist k' r' senderIndex' body' nowMs')
    (heq : nextFate hist.length gone new fate k=nextFate hist.length gone new fate k')
    (hne : nextFate hist.length gone new fate k≠.lost) : k=k' := by
  obtain ⟨i,hi,hc,he⟩ | ⟨hno,he⟩ := h.old gone new hk
  · obtain ⟨j,hj,hc',he'⟩ | ⟨hno',he'⟩ := h.old gone new hk'
    · have hij : i=j := ht.gone_inj hc.inUse hc'.inUse (he.symm.trans (heq.trans he')) (he ▸ hne)
      refine h.apart k _ _ _ _ hk k' _ _ _ _ hk' (by rw [hi,hj,hij]) ?_
      rw [hi]
      simp
    · exact absurd (he.symm.trans (heq.trans he')) (h.gone_ne ht hk' hno' hc.inUse (he ▸ hne))
  · obtain ⟨j,hj,hc',he'⟩ | ⟨hno',he'⟩ := h.old gone new hk'
    · rw [heq,he'] at hne
      exact absurd (he'.symm.trans (heq.symm.trans he)) (h.gone_ne ht hk hno hc'.inUse hne)
    · exact h.apart k _ _ _ _ hk k' _ _ _ _ hk' (he.symm.trans (heq.trans he')) (he ▸ hne)

theorem Accounts.turn (h : Accounts hist s fate) (ht : Turn hist.length x s s' gone new) :
    Accounts (hist++[x]) s' (nextFate hist.length gone new fate) where
  waits k r senderIndex body nowMs hk i hi := by
    obtain hk | ⟨rfl,hx⟩ := storedAt_concat.mp hk
    · obtain ⟨j,hj,hc,he⟩ | ⟨hno,he⟩ := h.old gone new hk
      · obtain ⟨rfl,hsame⟩ := ht.stays j hc.inUse i (he.symm.trans hi)
        rw [hsame]
        exact hc
      · exact absurd (he.symm.trans hi) (hno i)
    · obtain ⟨j,hj,hc,_⟩ := ht.enters _ _ _ _ hx
      rw [nextFate_self,hj] at hi
      exact Fate.waits.inj hi ▸ hc
  drained k r senderIndex body nowMs hk d hd := by
    obtain hk | ⟨rfl,hx⟩ := storedAt_concat.mp hk
    · obtain ⟨j,hj,hc,he⟩ | ⟨_,he⟩ := h.old gone new hk
      · obtain ⟨rfl,t,hx⟩ := ht.out j hc.inUse d (he.symm.trans hd)
        refine ⟨hk.lt,t,?_⟩
        rw [List.getElem?_concat_length,hx,hc.recipient,hc.sender,hc.body]
      · obtain ⟨hlt,hdr⟩ := h.drained k _ _ _ _ hk d (he.symm.trans hd)
        exact ⟨hlt,hdr.concat⟩
    · obtain ⟨j,hj,_⟩ := ht.enters _ _ _ _ hx
      rw [nextFate_self,hj] at hd
      cases hd
  lost k r senderIndex body nowMs hk hl := by
    obtain hk | ⟨rfl,hx⟩ := storedAt_concat.mp hk
    · obtain ⟨j,hj,hc,he⟩ | ⟨_,he⟩ := h.old gone new hk
      · have hends := ht.ends j hc.inUse (he.symm.trans hl)
        rw [hc.storedAt] at hends
        exact ⟨hist.length,x,hk.lt,List.getElem?_concat_length,hends⟩
      · obtain ⟨e,y,hlt,hy,hlapse⟩ := h.lost k _ _ _ _ hk (he.symm.trans hl)
        exact ⟨e,y,hlt,getElem?_concat.mpr (.inl hy),hlapse⟩
    · obtain ⟨j,hj,_⟩ := ht.enters _ _ _ _ hx
      rw [nextFate_self,hj] at hl
      cases hl
  apart k r senderIndex body nowMs hk k' r' senderIndex' body' nowMs' hk' heq hne := by
    obtain hk | ⟨rfl,hx⟩ := storedAt_concat.mp hk
    · obtain hk' | ⟨rfl,hx'⟩ := storedAt_concat.mp hk'
      · exact h.apart_old ht hk hk' heq hne
      · rw [nextFate_self] at heq
        exact absurd heq (h.apart_new ht hk hx')
    · obtain hk' | ⟨rfl,_⟩ := storedAt_concat.mp hk'
      · rw [nextFate_self] at heq
        exact absurd heq.symm (h.apart_new ht hk' hx)
      · rfl
  slots i hi := by
    obtain ⟨hin,hg⟩ | ⟨hn,r,senderIndex,body,nowMs,hx⟩ := ht.slots i hi
    · obtain ⟨k,r,senderIndex,body,nowMs,hk,hf⟩ := h.slots i hin
      refine ⟨k,r,senderIndex,body,nowMs,storedAt_concat.mpr (.inl hk),?_⟩
      rw [nextFate_old hk.lt,hf]
      exact hg
    · exact ⟨hist.length,r,senderIndex,body,nowMs,storedAt_concat.mpr (.inr ⟨rfl,hx⟩),(nextFate_self _).trans hn⟩
  drains d r p hd := by
    obtain ⟨nowMs,hd⟩ := hd
    obtain hd | ⟨rfl,hx⟩ := getElem?_concat.mp hd
    · obtain ⟨k,senderIndex,body,t,hk,hf⟩ := h.drains d r p ⟨nowMs,hd⟩
      refine ⟨k,senderIndex,body,t,storedAt_concat.mpr (.inl hk),?_⟩
      rw [nextFate_old hk.lt,hf]
    · obtain ⟨i,hin,hr,hg⟩ := ht.given r nowMs p hx
      obtain ⟨k,r',senderIndex,body,t,hk,hf⟩ := h.slots i hin
      have hc := h.waits k _ _ _ _ hk i hf
      have hrr : r'=r := hc.recipient.symm.trans hr
      refine ⟨k,senderIndex,body,t,storedAt_concat.mpr (.inl (hrr ▸ hk)),?_⟩
      rw [nextFate_old hk.lt,hf]
      exact hg

end Account

end Bolina.RelayStore
