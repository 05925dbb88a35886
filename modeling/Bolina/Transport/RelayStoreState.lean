import Bolina.Transport.RelayStore

namespace Bolina.RelayStore

open Panic Slots

/-- The bytes that a packet takes of a recipient's quota. -/
def StoredPacket.bytesFor (recipientAddr : Addr) (p : StoredPacket) : Nat :=
  if p.isFor recipientAddr then p.bodyLen else 0

def StoredPacket.countFor (recipientAddr : Addr) (p : StoredPacket) : Nat := (p.isFor recipientAddr).toNat

/-- The count is that of the slots in use, and every recipient is within its quota. -/
structure Sound {capacity : Nat} (s : Store capacity) : Prop where
  count : s.count=total (fun p => p.inUse.toNat) s.packets
  quota : ∀r,total (StoredPacket.countFor r) s.packets ≤ maxPerRecipient
  bytes : ∀r,total (StoredPacket.bytesFor r) s.packets ≤ maxBytesPerRecipient
  bodies : ∀i,(s.packets i).inUse=true → (s.packets i).bodyLen ≤ maxBody

/-- A packet given back. -/
def StoredPacket.freed (p : StoredPacket) : StoredPacket := { p with inUse := false }

/-- A packet behind a purge. -/
def StoredPacket.swept (p : StoredPacket) (nowMs : UInt64) : StoredPacket :=
  if p.inUse && p.expired nowMs then p.freed else p

section State

variable {capacity : Nat} {s : Store capacity} {r : Addr}

theorem sound_new (capacity : Nat) : Sound (Store.new capacity) where
  count := (total_eq_zero _ _ (fun _ => rfl)).symm
  quota _ := (total_eq_zero _ _ (fun _ => rfl)).trans_le (Nat.zero_le _)
  bytes _ := (total_eq_zero _ _ (fun _ => rfl)).trans_le (Nat.zero_le _)
  bodies _ h := absurd h Bool.false_ne_true

theorem Sound.count_le (h : Sound s) : s.count ≤ capacity := by
  rw [h.count]
  exact total_le _ _ (fun _ => Bool.toNat_le _)

theorem isFor_of_free {p : StoredPacket} (h : p.inUse=false) (r : Addr) : p.isFor r=false := by
  rw [StoredPacket.isFor,h,Bool.false_and]

theorem sound_reset (s : Store capacity) : Sound s.reset where
  count := (total_eq_zero _ _ (fun _ => rfl)).symm
  quota _ := (total_eq_zero _ _ (fun _ => rfl)).trans_le (Nat.zero_le _)
  bytes _ := (total_eq_zero _ _ (fun _ => rfl)).trans_le (Nat.zero_le _)
  bodies _ h := absurd h Bool.false_ne_true

/-- A slot in use that is given back takes one off the count. -/
theorem Sound.free (h : Sound s) {i : Fin capacity} (hin : (s.packets i).inUse=true) :
    sub s.count 1=some (s.count-1) ∧
      Sound { s with packets := Function.update s.packets i (s.packets i).freed,count := s.count-1 } := by
  have hpos : 1 ≤ s.count := by
    have hle := le_total (fun p => p.inUse.toNat) s.packets i
    rw [← h.count] at hle
    rwa [hin] at hle
  refine ⟨sub_eq hpos,?_,?_,?_,?_⟩
  · have hcount := total_update (fun p => p.inUse.toNat) s.packets i (s.packets i).freed
    change _+(s.packets i).inUse.toNat=_+0 at hcount
    rw [hin,← h.count] at hcount
    exact Nat.sub_eq_of_eq_add hcount.symm
  · intro r
    have hcount := total_update (StoredPacket.countFor r) s.packets i (s.packets i).freed
    change _=_+0 at hcount
    have hquota := h.quota r
    dsimp only
    omega
  · intro r
    have hbytes := total_update (StoredPacket.bytesFor r) s.packets i (s.packets i).freed
    change _=_+0 at hbytes
    have hquota := h.bytes r
    dsimp only
    omega
  · intro j
    dsimp only
    by_cases hj : j=i
    · rw [hj,Function.update_self]
      intro hfree
      exact absurd hfree Bool.false_ne_true
    · rw [Function.update_of_ne hj]
      exact h.bodies j

theorem swept_swept (p : StoredPacket) (nowMs : UInt64) : (p.swept nowMs).swept nowMs=p.swept nowMs := by
  by_cases h : (p.inUse && p.expired nowMs)=true
  · rw [StoredPacket.swept,StoredPacket.swept,if_pos h]
    rfl
  · rw [StoredPacket.swept,StoredPacket.swept,if_neg h,if_neg h]

theorem purge_loop (h : Sound s) (nowMs : UInt64) (idxs : List (Fin capacity)) (n : Nat) :
    ∃n' s',idxs.foldlM (fun (r : Nat × Store capacity) i => do
        let p := r.2.packets i
        if p.inUse && p.expired nowMs then
          let count ← sub r.2.count 1
          return (r.1+1,{ r.2 with packets := Function.update r.2.packets i { p with inUse := false },count })
        else return r) (n,s)=some (n',s') ∧ Sound s' ∧ s'.refusedQuota=s.refusedQuota ∧
      ∀j,s'.packets j=if j∈idxs then (s.packets j).swept nowMs else s.packets j := by
  induction idxs generalizing s n with
  | nil => exact ⟨n,s,rfl,h,rfl,fun j => (if_neg List.not_mem_nil).symm⟩
  | cons i idxs ih =>
    rw [List.foldlM_cons]
    by_cases hi : ((s.packets i).inUse && (s.packets i).expired nowMs)=true
    · have hin : (s.packets i).inUse=true := (Bool.and_eq_true _ _ ▸ hi).1
      obtain ⟨hsub,hsound⟩ := h.free hin
      obtain ⟨n',s',hrun,hs',hquota,hat⟩ := ih hsound (n+1)
      refine ⟨n',s',?_,hs',hquota,?_⟩
      · dsimp only
        rw [if_pos hi,hsub]
        exact hrun
      · intro j
        rw [hat j]
        by_cases hj : j=i
        · subst hj
          have hswept : (s.packets j).freed=(s.packets j).swept nowMs := by rw [StoredPacket.swept,if_pos hi]
          simp [hswept,swept_swept]
        · simp [hj]
    · obtain ⟨n',s',hrun,hs',hquota,hat⟩ := ih h n
      refine ⟨n',s',?_,hs',hquota,?_⟩
      · dsimp only
        rw [if_neg hi]
        exact hrun
      · intro j
        rw [hat j]
        by_cases hj : j=i
        · subst hj
          have hswept : (s.packets j).swept nowMs=s.packets j := by rw [StoredPacket.swept,if_neg hi]
          simp [hswept]
        · simp [hj]

theorem Sound.purge (h : Sound s) (nowMs : UInt64) :
    ∃n s',s.purgeExpired nowMs=some (n,s') ∧ Sound s' ∧ s'.refusedQuota=s.refusedQuota ∧
      ∀i,s'.packets i=(s.packets i).swept nowMs := by
  obtain ⟨n,s',hrun,hsound,hquota,hat⟩ := purge_loop h nowMs (List.finRange capacity) 0
  refine ⟨n,s',hrun,hsound,hquota,?_⟩
  intro i
  rw [hat i,if_pos (List.mem_finRange i)]

theorem tally_eq (s : Store capacity) (r : Addr) :
    s.tally r=(total (StoredPacket.countFor r) s.packets,total (StoredPacket.bytesFor r) s.packets) := by
  have hloop : ∀(idxs : List (Fin capacity)) (c b : Nat),idxs.foldl (fun q i =>
      if (s.packets i).isFor r then (q.1+1,q.2+(s.packets i).bodyLen) else q) (c,b)=
      (c+(idxs.map (fun i => (s.packets i).countFor r)).sum,b+(idxs.map (fun i => (s.packets i).bytesFor r)).sum) := by
    intro idxs
    induction idxs with
    | nil => simp
    | cons i idxs ih =>
      intro c b
      rw [List.foldl_cons,List.map_cons,List.map_cons,List.sum_cons,List.sum_cons,StoredPacket.countFor,
        StoredPacket.bytesFor]
      by_cases hi : (s.packets i).isFor r=true
      · rw [if_pos hi,if_pos hi,hi,ih,Bool.toNat_true,Nat.add_assoc,Nat.add_assoc]
      · have hout : (s.packets i).isFor r=false := by simpa using hi
        rw [if_neg hi,if_neg hi,ih,hout,Bool.toNat_false,Nat.zero_add,Nat.zero_add]
  rw [Store.tally,hloop,total,total,Fin.sum_univ_def,Fin.sum_univ_def,Nat.zero_add,Nat.zero_add]

/-- A packet in use with what was handed in. -/
structure Carries (p : StoredPacket) (recipientAddr : Addr) (senderIndex : UInt32) (body : Bytes) (nowMs : UInt64) :
    Prop where
  inUse : p.inUse=true
  recipient : p.recipientAddr=recipientAddr
  sender : p.senderIndex=senderIndex
  body : p.body.toList.take p.bodyLen=body
  storedAt : p.storedAtMs=nowMs

/-- What a store does: nothing, the purge and the refusal, or the purge and a packet
in the first free slot. -/
inductive Stored (s : Store capacity) (r : Addr) (senderIndex : UInt32) (body : Bytes) (nowMs : UInt64) :
    Except StoreError Unit → Store capacity → Prop
  | tooLarge (h : maxBody < body.length) : Stored s r senderIndex body nowMs (.error .BodyTooLarge) s
  | refused {e : StoreError} {s' : Store capacity} (hat : ∀i,s'.packets i=(s.packets i).swept nowMs)
      (hrefused : s'.refusedQuota=s.refusedQuota+1) : Stored s r senderIndex body nowMs (.error e) s'
  | kept {i : Fin capacity} {p : StoredPacket} {s' : Store capacity} (hfits : body.length ≤ maxBody)
      (hcount : total (StoredPacket.countFor r) (fun i => (s.packets i).swept nowMs) < maxPerRecipient)
      (hbytes : total (StoredPacket.bytesFor r) (fun i => (s.packets i).swept nowMs)+body.length ≤ maxBytesPerRecipient)
      (hfree : ((s.packets i).swept nowMs).inUse=false)
      (hfirst : ∀j,j < i → ((s.packets j).swept nowMs).inUse=true) (hp : Carries p r senderIndex body nowMs)
      (hself : s'.packets i=p) (hother : ∀j,j≠i → s'.packets j=(s.packets j).swept nowMs)
      (hrefused : s'.refusedQuota=s.refusedQuota) : Stored s r senderIndex body nowMs (.ok ()) s'

theorem refuse_cases (h : Sound s) (e : StoreError) :
    (wordLimit ≤ s.refusedQuota+1 ∧ s.refuse e=none) ∨
      (s.refuse e=some (.error e,{ s with refusedQuota := s.refusedQuota+1 }) ∧
        Sound { s with refusedQuota := s.refusedQuota+1 }) := by
  by_cases hw : s.refusedQuota+1 < wordLimit
  · refine .inr ⟨?_,h.count,h.quota,h.bytes,h.bodies⟩
    rw [Store.refuse,add_eq hw]
    rfl
  · refine .inl ⟨not_lt.mp hw,?_⟩
    have hadd : add s.refusedQuota 1=none := if_neg hw
    rw [Store.refuse,hadd]
    rfl

/-- The buffer takes the body at its front, over what it held before. -/
theorem copy_body (buffer : FixedBytes maxBody) {body : Bytes} (h : body.length ≤ maxBody) :
    ∃b : FixedBytes maxBody,copyTo buffer.toList body 0 body.length=some b.toList ∧ b.toList.take body.length=body := by
  have hlen : buffer.toList.length=maxBody := buffer.toList_length
  have hcopy : copyTo buffer.toList body 0 body.length=some (body++buffer.toList.drop body.length) := by
    rw [copyTo_eq (Nat.zero_le _) (by rw [hlen]; exact h) (Nat.sub_zero _),List.take_zero,List.nil_append]
  refine ⟨⟨body++buffer.toList.drop body.length,?_⟩,hcopy,List.take_left⟩
  rw [List.length_append,List.length_drop,hlen]
  omega

/-- A packet that is put into a free slot, within the quota of its recipient. -/
theorem Sound.keep (h : Sound s) {i : Fin capacity} (hfree : (s.packets i).inUse=false) {p : StoredPacket}
    (hin : p.inUse=true) (hlen : p.bodyLen ≤ maxBody)
    (hcount : total (StoredPacket.countFor p.recipientAddr) s.packets < maxPerRecipient)
    (hbytes : total (StoredPacket.bytesFor p.recipientAddr) s.packets+p.bodyLen ≤ maxBytesPerRecipient) :
    Sound { s with packets := Function.update s.packets i p,count := s.count+1 } := by
  have hnone (r : Addr) : (s.packets i).isFor r=false := isFor_of_free hfree r
  refine ⟨?_,?_,?_,?_⟩
  · have htotal := total_update (fun p => p.inUse.toNat) s.packets i p
    change _+(s.packets i).inUse.toNat=_ at htotal
    rw [hfree,hin,← h.count] at htotal
    exact htotal.symm
  · intro r
    have htotal := total_update (StoredPacket.countFor r) s.packets i p
    have hquota := h.quota r
    have hold : (s.packets i).countFor r=0 := by rw [StoredPacket.countFor,hnone]; rfl
    dsimp only
    by_cases hr : p.recipientAddr=r
    · subst hr
      have hnew := Bool.toNat_le (p.isFor p.recipientAddr)
      rw [← StoredPacket.countFor] at hnew
      omega
    · have hnew : p.countFor r=0 := by
        rw [StoredPacket.countFor,StoredPacket.isFor,beq_eq_false_iff_ne.mpr hr,Bool.and_false]
        rfl
      omega
  · intro r
    have htotal := total_update (StoredPacket.bytesFor r) s.packets i p
    have hquota := h.bytes r
    have hold : (s.packets i).bytesFor r=0 := by
      rw [StoredPacket.bytesFor,hnone]
      rfl
    dsimp only
    by_cases hr : p.recipientAddr=r
    · subst hr
      have hnew : p.bytesFor p.recipientAddr ≤ p.bodyLen := by
        rw [StoredPacket.bytesFor]
        split_ifs
        · exact le_rfl
        · exact Nat.zero_le _
      omega
    · have hnew : p.bytesFor r=0 := by
        rw [StoredPacket.bytesFor,StoredPacket.isFor,beq_eq_false_iff_ne.mpr hr,Bool.and_false]
        rfl
      omega
  · intro j
    dsimp only
    by_cases hj : j=i
    · rw [hj,Function.update_self]
      exact fun _ => hlen
    · rw [Function.update_of_ne hj]
      exact h.bodies j

theorem Sound.store (h : Sound s) (r : Addr) (senderIndex : UInt32) (body : Bytes) (nowMs : UInt64) :
    (wordLimit ≤ s.refusedQuota+1 ∧ s.store r senderIndex body nowMs=none) ∨
      ∃a s',s.store r senderIndex body nowMs=some (a,s') ∧ Sound s' ∧ Stored s r senderIndex body nowMs a s' := by
  rw [Store.store]
  by_cases hlong : maxBody < body.length
  · rw [if_pos hlong]
    exact .inr ⟨_,s,rfl,h,.tooLarge hlong⟩
  · obtain ⟨n,s₁,hpurge,h₁,hquota,hat⟩ := h.purge nowMs
    -- every refusal comes behind the purge
    have hrefuse : ∀e,(wordLimit ≤ s.refusedQuota+1 ∧ s₁.refuse e=none) ∨
        ∃a s',s₁.refuse e=some (a,s') ∧ Sound s' ∧ Stored s r senderIndex body nowMs a s' := by
      intro e
      obtain ⟨hw,hnone⟩ | ⟨hsome,hsound⟩ := refuse_cases h₁ e
      · exact .inl ⟨hquota ▸ hw,hnone⟩
      · exact .inr ⟨_,_,hsome,hsound,.refused hat (congrArg (·+1) hquota)⟩
    rw [if_neg hlong,hpurge]
    simp only [Option.bind_eq_bind,Option.bind_some,tally_eq]
    by_cases hfull : capacity ≤ s₁.count
    · rw [if_pos hfull]
      exact hrefuse _
    · rw [if_neg hfull]
      by_cases hover : maxPerRecipient ≤ total (StoredPacket.countFor r) s₁.packets ∨
          maxBytesPerRecipient < total (StoredPacket.bytesFor r) s₁.packets+body.length
      · rw [if_pos hover]
        exact hrefuse _
      · rw [if_neg hover]
        obtain ⟨hcount,hbytes⟩ := not_or.mp hover
        cases hfind : Fin.find? (fun i => !(s₁.packets i).inUse) with
        | none => exact hrefuse _
        | some i =>
          obtain ⟨hfree,hfirst⟩ := Fin.find?_eq_some_iff.mp hfind
          obtain ⟨b,hcopy,hbody⟩ := copy_body (s₁.packets i).body (not_lt.mp hlong)
          have hslot : (s₁.packets i).inUse=false := by simpa using hfree
          have hexact : exact b.toList maxBody=some b := exact_eq b.toList_length
          have hswept : s₁.packets=fun i => (s.packets i).swept nowMs := funext hat
          simp only [hcopy,hexact,Option.bind_some]
          refine .inr ⟨_,_,rfl,h₁.keep hslot rfl (not_lt.mp hlong) (not_le.mp hcount) (not_lt.mp hbytes),
            .kept (i := i) (not_lt.mp hlong) (hswept ▸ not_le.mp hcount) (hswept ▸ not_lt.mp hbytes) (hat i ▸ hslot)
              ?_ ⟨rfl,rfl,rfl,hbody,rfl⟩ (Function.update_self _ _ _) ?_ hquota⟩
          · intro j hj
            rw [← hat j]
            simpa using hfirst j hj
          · intro j hj
            exact (Function.update_of_ne hj _ _).trans (hat j)

/-- The oldest of the candidates looked at, and of several that are as old the first. -/
def Oldest (s : Store capacity) (r : Addr) (idxs : List (Fin capacity)) : Option (Fin capacity) → Prop
  | none => ∀j∈idxs,(s.packets j).isFor r=false
  | some b => (s.packets b).isFor r=true ∧ b∈idxs ∧ ∀j∈idxs,(s.packets j).isFor r=true →
    (s.packets b).storedAtMs < (s.packets j).storedAtMs ∨ ((s.packets b).storedAtMs=(s.packets j).storedAtMs ∧ b ≤ j)

theorem Oldest.skip {idxs : List (Fin capacity)} {best : Option (Fin capacity)} (h : Oldest s r idxs best)
    {i : Fin capacity} (hi : (s.packets i).isFor r=false) : Oldest s r (idxs++[i]) best := by
  have hold : ∀j∈idxs++[i],(s.packets j).isFor r=true → j∈idxs := by
    intro j hj hfor
    obtain hj | hj := List.mem_append.mp hj
    · exact hj
    · rw [List.mem_singleton.mp hj,hi] at hfor
      cases hfor
  cases best with
  | none =>
    intro j hj
    by_contra hfor
    rw [Bool.not_eq_false] at hfor
    exact absurd hfor (by rw [h j (hold j hj hfor)]; exact Bool.false_ne_true)
  | some b =>
    obtain ⟨hb,hmem,hmin⟩ := h
    exact ⟨hb,List.mem_append_left _ hmem,fun j hj hfor => hmin j (hold j hj hfor) hfor⟩

theorem Oldest.keep {idxs : List (Fin capacity)} {b i : Fin capacity} (h : Oldest s r idxs (some b))
    (hi : (s.packets b).storedAtMs < (s.packets i).storedAtMs ∨
      ((s.packets b).storedAtMs=(s.packets i).storedAtMs ∧ b ≤ i)) : Oldest s r (idxs++[i]) (some b) := by
  obtain ⟨hb,hmem,hmin⟩ := h
  refine ⟨hb,List.mem_append_left _ hmem,?_⟩
  intro j hj hfor
  obtain hj | hj := List.mem_append.mp hj
  · exact hmin j hj hfor
  · rw [List.mem_singleton.mp hj]
    exact hi

theorem oldest_take {idxs : List (Fin capacity)} {i : Fin capacity} (hi : (s.packets i).isFor r=true)
    (hyounger : ∀j∈idxs,(s.packets j).isFor r=true → (s.packets i).storedAtMs < (s.packets j).storedAtMs) :
    Oldest s r (idxs++[i]) (some i) := by
  refine ⟨hi,List.mem_append_right _ (List.mem_singleton_self i),?_⟩
  intro j hj hfor
  obtain hj | hj := List.mem_append.mp hj
  · exact .inl (hyounger j hj hfor)
  · rw [List.mem_singleton.mp hj]
    exact .inr ⟨rfl,le_rfl⟩

theorem oldest_step {idxs : List (Fin capacity)} {best : Option (Fin capacity)} (h : Oldest s r idxs best)
    {i : Fin capacity} (hlast : ∀j∈idxs,j < i) : Oldest s r (idxs++[i]) (s.better r best i) := by
  unfold Store.better
  by_cases hi : (s.packets i).isFor r=false
  · rw [if_pos hi]
    exact h.skip hi
  · rw [if_neg hi]
    rw [Bool.not_eq_false] at hi
    cases best with
    | none =>
      refine oldest_take hi ?_
      intro j hj hfor
      rw [h j hj] at hfor
      cases hfor
    | some b =>
      dsimp only
      by_cases holder : (s.packets b).storedAtMs < (s.packets i).storedAtMs
      · rw [if_pos holder]
        exact h.keep (.inl holder)
      · rw [if_neg holder]
        have hafter : b < i := hlast b h.2.1
        by_cases htie : (s.packets i).storedAtMs=(s.packets b).storedAtMs ∧ b < i
        · rw [if_pos htie]
          exact h.keep (.inr ⟨htie.1.symm,hafter.le⟩)
        · rw [if_neg htie]
          have hyounger : (s.packets i).storedAtMs < (s.packets b).storedAtMs :=
            UInt64.lt_of_le_of_ne (UInt64.not_lt.mp holder) (fun he => htie ⟨he,hafter⟩)
          refine oldest_take hi ?_
          intro j hj hfor
          obtain hlt | ⟨heq,_⟩ := h.2.2 j hj hfor
          · exact UInt64.lt_trans hyounger hlt
          · exact heq ▸ hyounger

theorem oldest_foldl (s : Store capacity) (r : Addr) (idxs : List (Fin capacity)) (h : idxs.Pairwise (· < ·)) :
    Oldest s r idxs (idxs.foldl (s.better r) none) := by
  induction idxs using List.reverseRecOn with
  | nil => exact fun j hj => absurd hj List.not_mem_nil
  | append_singleton idxs i ih =>
    obtain ⟨hsorted,_,hlast⟩ := List.pairwise_append.mp h
    rw [List.foldl_append,List.foldl_cons,List.foldl_nil]
    exact oldest_step (ih hsorted) (fun j hj => hlast j hj i List.mem_cons_self)

/-- What a drain does: the purge, and the oldest packet of the recipient given out. -/
inductive Drained (s : Store capacity) (r : Addr) (nowMs : UInt64) : Option DrainedPacket → Store capacity → Prop
  | empty {s' : Store capacity} (hnone : ∀i,((s.packets i).swept nowMs).isFor r=false)
      (hat : ∀i,s'.packets i=(s.packets i).swept nowMs) : Drained s r nowMs none s'
  | packet {i : Fin capacity} {s' : Store capacity} (hin : ((s.packets i).swept nowMs).isFor r=true)
      (hmin : ∀j,((s.packets j).swept nowMs).isFor r=true →
        ((s.packets i).swept nowMs).storedAtMs < ((s.packets j).swept nowMs).storedAtMs ∨
          (((s.packets i).swept nowMs).storedAtMs=((s.packets j).swept nowMs).storedAtMs ∧ i ≤ j))
      (hself : (s'.packets i).inUse=false) (hother : ∀j,j≠i → s'.packets j=(s.packets j).swept nowMs) :
      Drained s r nowMs (some ⟨((s.packets i).swept nowMs).senderIndex,
        ((s.packets i).swept nowMs).body.toList.take ((s.packets i).swept nowMs).bodyLen⟩) s'

theorem Sound.drain (h : Sound s) (r : Addr) (nowMs : UInt64) :
    ∃a s',s.drainNext r nowMs=some (a,s') ∧ Sound s' ∧ s'.refusedQuota=s.refusedQuota ∧ Drained s r nowMs a s' := by
  obtain ⟨n,s₁,hpurge,h₁,hquota,hat⟩ := h.purge nowMs
  have hold := oldest_foldl s₁ r (List.finRange capacity) (List.pairwise_lt_finRange capacity)
  rw [Store.drainNext,hpurge]
  simp only [Option.bind_eq_bind,Option.bind_some]
  cases hbest : (List.finRange capacity).foldl (s₁.better r) none with
  | none =>
    rw [hbest] at hold
    exact ⟨none,s₁,rfl,h₁,hquota,.empty (fun i => hat i ▸ hold i (List.mem_finRange i)) hat⟩
  | some i =>
    rw [hbest] at hold
    obtain ⟨hfor,_,hmin⟩ := hold
    have hin : (s₁.packets i).inUse=true := by
      rw [StoredPacket.isFor,Bool.and_eq_true] at hfor
      exact hfor.1
    obtain ⟨hsub,hsound⟩ := h₁.free hin
    have hfit : (s₁.packets i).bodyLen ≤ (s₁.packets i).body.toList.length := by
      rw [(s₁.packets i).body.toList_length]
      exact h₁.bodies i hin
    simp only [hsub,range_front hfit,Option.bind_some]
    have hself : (Function.update s₁.packets i (s₁.packets i).freed i).inUse=false := by
      rw [Function.update_self]
      rfl
    have hyoungest : ∀j,((s.packets j).swept nowMs).isFor r=true →
        ((s.packets i).swept nowMs).storedAtMs < ((s.packets j).swept nowMs).storedAtMs ∨
          (((s.packets i).swept nowMs).storedAtMs=((s.packets j).swept nowMs).storedAtMs ∧ i ≤ j) := by
      intro j hj
      rw [← hat j] at hj ⊢
      rw [← hat i]
      exact hmin j (List.mem_finRange j) hj
    have hdrained : Drained s r nowMs _
        { s₁ with packets := Function.update s₁.packets i (s₁.packets i).freed,count := s₁.count-1 } :=
      .packet (hat i ▸ hfor) hyoungest hself (fun j hj => (Function.update_of_ne hj _ _).trans (hat j))
    rw [← hat i] at hdrained
    exact ⟨_,_,rfl,hsound,hquota,hdrained⟩

end State

end Bolina.RelayStore
