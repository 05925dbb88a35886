import Bolina.Transport.RelayTurns

namespace Bolina.RelayStore

open Panic Slots

/-- One packet behind a refusal: as it was, or expired and given back. -/
def Refusal (p q : StoredPacket) (nowMs : UInt64) : Prop :=
  q=p ∨ (p.inUse=true ∧ p.expired nowMs=true ∧ q=p.freed)

section Steps

variable {capacity : Nat} {s s' : Store capacity}

theorem refusal_swept (p : StoredPacket) (nowMs : UInt64) : Refusal p (p.swept nowMs) nowMs := by
  rw [StoredPacket.swept]
  split_ifs with hout
  · rw [Bool.and_eq_true] at hout
    exact .inr ⟨hout.1,hout.2,rfl⟩
  · exact .inl rfl

theorem Stored.refusal {r : Addr} {senderIndex : UInt32} {body : Bytes} {nowMs : UInt64} {e : StoreError}
    (h : Stored s r senderIndex body nowMs (.error e) s') :
    (∀i,Refusal (s.packets i) (s'.packets i) nowMs) ∧
      (s'.refusedQuota=s.refusedQuota ∨ s'.refusedQuota=s.refusedQuota+1) := by
  cases h with
  | tooLarge _ => exact ⟨fun _ => .inl rfl,.inl rfl⟩
  | refused hat hrefused =>
    refine ⟨?_,.inr hrefused⟩
    intro i
    rw [hat i]
    exact refusal_swept _ nowMs

theorem Stored.turn {r : Addr} {senderIndex : UInt32} {body : Bytes} {nowMs : UInt64} {a : Except StoreError Unit}
    (h : Stored s r senderIndex body nowMs a s') (n : Nat) :
    ∃gone new,Turn n (.store r senderIndex body nowMs,.stored a) s s' gone new ∧
      (¬Crosses s r body nowMs → (∀i,(s.packets i).inUse=true → (s.packets i).storedAtMs ≤ nowMs) →
        Last s s' gone new) := by
  cases h with
  | tooLarge _ => exact ⟨_,_,turn_still (by simp) (by simp),fun _ _ => last_lost⟩
  | refused hat _ => exact ⟨_,_,turn_swept rfl hat (by simp) (by simp),fun _ _ => last_lost⟩
  | kept hfits hcount hbytes hfree hfirst hp hself hother _ =>
    refine ⟨_,_,turn_kept hfree (hself ▸ hp) hother,?_⟩
    intro hclear hpast
    refine last_kept hfree (hself ▸ hp) hother hpast ?_
    intro j hlt hfor htie
    exact hclear ⟨hfits,hcount,hbytes,_,j,hfree,hfirst,hlt,hfor,htie⟩

theorem Drained.turn {r : Addr} {nowMs : UInt64} {a : Option DrainedPacket} (h : Drained s r nowMs a s') (n : Nat) :
    ∃gone,Turn n (.drainNext r nowMs,.drained a) s s' gone .lost := by
  cases h with
  | empty _ hat => exact ⟨_,turn_swept rfl hat (by simp) (by simp)⟩
  | packet hin hmin hself hother => exact ⟨_,turn_drained hin hmin hself hother⟩

/-- A call runs to its end while the quota's counter has room. -/
theorem Sound.act (h : Sound s) (call : Call) (n : Nat) :
    (wordLimit ≤ s.refusedQuota+1 ∧ s.act call=none) ∨
      ∃answer s',s.act call=some (answer,s') ∧ Sound s' ∧ s'.refusedQuota ≤ s.refusedQuota+1 ∧
        ∃gone new,Turn n (call,answer) s s' gone new ∧
          (¬call.Crosses s → (∀nowMs,call.time=some nowMs → ∀i,(s.packets i).inUse=true →
            (s.packets i).storedAtMs ≤ nowMs) → Last s s' gone new) := by
  cases call with
  | store r senderIndex body nowMs =>
    obtain ⟨hw,hnone⟩ | ⟨a,s',hsome,hs',hstored⟩ := h.store r senderIndex body nowMs
    · exact .inl ⟨hw,by rw [Store.act,hnone]; rfl⟩
    · have hquota : s'.refusedQuota ≤ s.refusedQuota+1 := by
        cases hstored with
        | tooLarge _ => exact Nat.le_succ _
        | refused _ hrefused => exact hrefused.le
        | kept _ _ _ _ _ _ _ _ hrefused => exact hrefused.le.trans (Nat.le_succ _)
      obtain ⟨gone,new,hturn,hlast⟩ := hstored.turn n
      exact .inr ⟨.stored a,s',by rw [Store.act,hsome]; rfl,hs',hquota,gone,new,hturn,
        fun hclear hpast => hlast hclear (hpast nowMs rfl)⟩
  | drainNext r nowMs =>
    obtain ⟨a,s',hsome,hs',hquota,hdrained⟩ := h.drain r nowMs
    obtain ⟨gone,hturn⟩ := hdrained.turn n
    exact .inr ⟨.drained a,s',by rw [Store.act,hsome]; rfl,hs',hquota.le.trans (Nat.le_succ _),gone,.lost,hturn,
      fun _ _ => last_lost⟩
  | purgeExpired nowMs =>
    obtain ⟨purged,s',hsome,hs',hquota,hat⟩ := h.purge nowMs
    exact .inr ⟨.purged purged,s',by rw [Store.act,hsome]; rfl,hs',hquota.le.trans (Nat.le_succ _),_,.lost,
      turn_swept rfl hat (by simp) (by simp),fun _ _ => last_lost⟩
  | reset =>
    exact .inr ⟨.done,s.reset,rfl,sound_reset s,Nat.zero_le _,_,.lost,turn_reset,fun _ _ => last_lost⟩

end Steps

section Runs

variable {capacity : Nat} {s s' : Store capacity}

theorem runs_concat (s : Store capacity) (calls : List Call) (call : Call) :
    s.runs (calls++[call])=(s.runs calls).bind fun r =>
      (r.2.act call).map fun a => (r.1++[(call,a.1)],a.2) := by
  induction calls generalizing s with
  | nil =>
    cases hact : s.act call <;> simp [Store.runs,hact]
  | cons c calls ih =>
    rw [List.cons_append,Store.runs,Store.runs]
    cases s.act c with
    | none => rfl
    | some a =>
      simp only [Option.bind_eq_bind,Option.bind_some,ih]
      cases a.2.runs calls with
      | none => rfl
      | some r =>
        cases hact : r.2.act call <;> simp [hact]

theorem runs_concat_eq {calls : List Call} {call : Call} {hist : History}
    (h : s.runs (calls++[call])=some (hist,s')) : ∃old s₁ answer,s.runs calls=some (old,s₁) ∧
      s₁.act call=some (answer,s') ∧ hist=old++[(call,answer)] := by
  rw [runs_concat] at h
  obtain ⟨⟨old,s₁⟩,hold,hrest⟩ := Option.bind_eq_some_iff.mp h
  obtain ⟨⟨answer,s₂⟩,hact,heq⟩ := Option.map_eq_some_iff.mp hrest
  obtain ⟨rfl,rfl⟩ := Prod.mk.inj heq
  exact ⟨old,s₁,answer,hold,hact,rfl⟩

/-- Every run keeps the slots in order and gives every packet its fate. -/
theorem runs_accounts {calls : List Call} {hist : History} (h : (Store.new capacity).runs calls=some (hist,s)) :
    Sound s ∧ ∃fate,Accounts hist s fate := by
  induction calls using List.reverseRecOn generalizing hist s with
  | nil =>
    cases h
    exact ⟨sound_new capacity,_,accounts_new capacity⟩
  | append_singleton calls call ih =>
    obtain ⟨old,s₁,answer,hold,hact,rfl⟩ := runs_concat_eq h
    obtain ⟨hs,fate,hfate⟩ := ih hold
    obtain ⟨_,hnone⟩ | ⟨_,_,hsome,hs',_,gone,new,hturn,_⟩ := hs.act call old.length
    · rw [hact] at hnone
      cases hnone
    · rw [hact] at hsome
      cases hsome
      exact ⟨hs',_,hfate.turn hturn⟩

theorem runs_total (calls : List Call) (h : calls.length < wordLimit) :
    ∃hist s,(Store.new capacity).runs calls=some (hist,s) ∧ s.refusedQuota ≤ calls.length := by
  induction calls using List.reverseRecOn with
  | nil => exact ⟨[],_,rfl,le_rfl⟩
  | append_singleton calls call ih =>
    rw [List.length_append,List.length_singleton] at h
    obtain ⟨hist,s,hrun,hquota⟩ := ih (Nat.lt_of_succ_lt h)
    obtain ⟨hw,_⟩ | ⟨answer,s',hsome,_,hnext,_⟩ := (runs_accounts hrun).1.act call hist.length
    · omega
    · refine ⟨hist++[(call,answer)],s',?_,?_⟩
      · rw [runs_concat,hrun,Option.bind_some,hsome]
        rfl
      · rw [List.length_append,List.length_singleton]
        omega

end Runs

/-- Over every run the count is that of the slots in use and the quotas hold, a refusal
changes no packet that has not expired, and every stored packet has its one fate. -/
theorem relay_store_conservation (calls : List Call) :
    (calls.length < wordLimit → ∃hist s,(Store.new maxStored).runs calls=some (hist,s)) ∧
    ∀hist s,(Store.new maxStored).runs calls=some (hist,s) →
      Sound s ∧ s.count ≤ maxStored ∧
      (∀r senderIndex body nowMs e s',s.store r senderIndex body nowMs=some (.error e,s') →
        Sound s' ∧ (∀i,Refusal (s.packets i) (s'.packets i) nowMs) ∧
          (s'.refusedQuota=s.refusedQuota ∨ s'.refusedQuota=s.refusedQuota+1)) ∧
      ∃fate,Accounts hist s fate := by
  constructor
  · intro hshort
    obtain ⟨hist,s,hrun,_⟩ := runs_total calls hshort
    exact ⟨hist,s,hrun⟩
  · intro hist s hrun
    obtain ⟨hs,hfate⟩ := runs_accounts hrun
    refine ⟨hs,hs.count_le,?_,hfate⟩
    intro r senderIndex body nowMs e s' herr
    obtain ⟨_,hnone⟩ | ⟨a,s₁,hsome,hs',hstored⟩ := hs.store r senderIndex body nowMs
    · rw [herr] at hnone
      cases hnone
    · rw [herr] at hsome
      cases hsome
      exact ⟨hs',hstored.refusal⟩

end Bolina.RelayStore
