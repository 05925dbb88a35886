import Mathlib.Data.List.Basic

/-! A log whose entries are numbered from 1, of which the newest are kept, and a reader
that asks for what is behind the last number it has been given. -/

namespace Bolina.NumberedLog

variable {α : Type*}

/-- The entries with their numbers. -/
def numbered (xs : List α) : List (Nat × α) := (xs.zipIdx 1).map Prod.swap

/-- The newest entries, at most `cap` of them. -/
def kept (cap : Nat) (xs : List α) : List (Nat × α) := (numbered xs).drop (xs.length-cap)

section Numbers

variable {cap k : Nat} {xs : List α} {a : α}

theorem numbered_length (xs : List α) : (numbered xs).length=xs.length := by
  rw [numbered,List.length_map,List.length_zipIdx]

theorem numbered_append (xs : List α) (a : α) : numbered (xs++[a])=numbered xs++[(xs.length+1,a)] := by
  simp [numbered,List.zipIdx_append,Nat.add_comm]

theorem numbered_numbers (xs : List α) : (numbered xs).map Prod.fst=List.range' 1 xs.length := by
  rw [numbered,List.map_map]
  exact List.zipIdx_map_snd 1 xs

theorem mem_numbered : (k,a)∈numbered xs ↔ 0 < k ∧ xs[k-1]?=some a := by
  have hswap : (k,a)∈numbered xs ↔ (a,k)∈xs.zipIdx 1 := by
    rw [numbered,List.mem_map]
    constructor
    · intro h
      obtain ⟨p,hp,he⟩ := h
      rw [← Prod.swap_swap p,he] at hp
      exact hp
    · intro h
      exact ⟨(a,k),h,rfl⟩
  rw [hswap,List.mem_zipIdx_iff_le_and_getElem?_sub]
  exact Iff.rfl

/-- The entry in the middle of a log has the number of its place. -/
theorem mem_numbered_mid (xs ys : List α) (a : α) : (xs.length+1,a)∈numbered (xs++a::ys) := by
  rw [mem_numbered]
  refine ⟨Nat.succ_pos _,?_⟩
  rw [Nat.add_sub_cancel,List.getElem?_append_right (Nat.le_refl _),Nat.sub_self]
  rfl

theorem numbered_le {e : Nat × α} (h : e∈numbered xs) : e.1 ≤ xs.length := by
  have hn : e.1∈(numbered xs).map Prod.fst := List.mem_map_of_mem h
  rw [numbered_numbers,List.mem_range'_1] at hn
  omega

theorem numbered_ascends (xs : List α) : (numbered xs).Pairwise (fun a b => a.1 < b.1) := by
  rw [← List.pairwise_map (f := Prod.fst) (R := fun a b => a < b),numbered_numbers]
  exact List.pairwise_lt_range'

theorem kept_length (cap : Nat) (xs : List α) : (kept cap xs).length=min xs.length cap := by
  rw [kept,List.length_drop,numbered_length]
  omega

/-- The numbers of what is kept follow each other up to the newest. -/
theorem kept_numbers (cap : Nat) (xs : List α) :
    (kept cap xs).map Prod.fst=List.range' (xs.length-cap+1) (min xs.length cap) := by
  have hlen : xs.length-(xs.length-cap)=min xs.length cap := by omega
  rw [kept,List.map_drop,numbered_numbers,List.drop_range',hlen,Nat.mul_one,Nat.add_comm]

/-- An entry is kept while fewer than `cap` newer ones have come. -/
theorem mem_kept {e : Nat × α} : e∈kept cap xs ↔ e∈numbered xs ∧ xs.length < e.1+cap := by
  constructor
  · intro h
    refine ⟨List.mem_of_mem_drop h,?_⟩
    have hn : e.1∈(kept cap xs).map Prod.fst := List.mem_map_of_mem h
    rw [kept_numbers,List.mem_range'_1] at hn
    omega
  · intro h
    obtain ⟨hmem,hnew⟩ := h
    rw [← List.take_append_drop (xs.length-cap) (numbered xs)] at hmem
    cases List.mem_append.mp hmem with
    | inl hold =>
      have hn : e.1∈((numbered xs).take (xs.length-cap)).map Prod.fst := List.mem_map_of_mem hold
      rw [List.map_take,numbered_numbers,List.take_range'_of_length_ge (Nat.sub_le _ _),List.mem_range'_1] at hn
      omega
    | inr h => exact h

theorem kept_ascends (cap : Nat) (xs : List α) : (kept cap xs).Pairwise (fun a b => a.1 < b.1) :=
  (numbered_ascends xs).sublist (List.drop_sublist _ _)

/-- A new entry takes the place of the oldest when `cap` are kept. -/
theorem kept_append (hcap : 0 < cap) (xs : List α) (a : α) :
    kept cap (xs++[a])=
      (if (kept cap xs).length=cap then (kept cap xs).drop 1 else kept cap xs)++[(xs.length+1,a)] := by
  have hle : xs.length+1-cap ≤ (numbered xs).length := by
    rw [numbered_length]
    omega
  rw [kept_length,kept,numbered_append,List.length_append,List.length_singleton,List.drop_append_of_le_length hle]
  congr 1
  split
  · rename_i hfull
    rw [kept,List.drop_drop]
    congr 1
    omega
  · rename_i hroom
    rw [kept]
    congr 1
    omega

end Numbers

/-- What is asked of a log. -/
inductive Call (α : Type*) where
  | publish (a : α)
  | poll

/-- A log with its reader: the last number that was handed out, and all that was. -/
structure Reader (α : Type*) where
  log : List α
  last : Nat
  got : List (Nat × α)

def Reader.new : Reader α := ⟨[],0,[]⟩

/-- What a poll hands out. -/
def Reader.unread (cap : Nat) (r : Reader α) : List (Nat × α) := (kept cap r.log).filter (fun e => r.last < e.1)

def lastNumber (new : List (Nat × α)) (last : Nat) : Nat := (new.getLast?.map Prod.fst).getD last

def Reader.step (cap : Nat) (r : Reader α) : Call α → Reader α
  | .publish a => { r with log := r.log++[a] }
  | .poll => { r with last := lastNumber (r.unread cap) r.last,got := r.got++r.unread cap }

/-- What has been published. -/
def published (calls : List (Call α)) : List α :=
  calls.filterMap (fun c => match c with
    | .publish a => some a
    | .poll => none)

/-- What was handed out ascends, up to the last number. -/
structure Reader.Read (r : Reader α) : Prop where
  last : r.last ≤ r.log.length
  ascends : r.got.Pairwise (fun a b => a.1 < b.1)
  below : ∀e∈r.got,e.1 ≤ r.last
  logged : ∀e∈r.got,e∈numbered r.log

section Run

variable {cap : Nat} {r : Reader α} {calls : List (Call α)} {burst : List α} {a : α}

theorem mem_unread {e : Nat × α} : e∈r.unread cap ↔ e∈kept cap r.log ∧ r.last < e.1 := by
  rw [Reader.unread,List.mem_filter,decide_eq_true_eq]

theorem lastNumber_of_mem {new : List (Nat × α)} {e : Nat × α} {last : Nat}
    (h : new.Pairwise (fun a b => a.1 < b.1)) (he : e∈new) : e.1 ≤ lastNumber new last := by
  obtain ⟨front,z,hz⟩ : ∃front z,new=front++[z] := by
    have hne : new≠[] := List.ne_nil_of_mem he
    exact ⟨new.dropLast,new.getLast hne,(List.dropLast_append_getLast hne).symm⟩
  rw [hz] at h he
  rw [lastNumber,hz,List.getLast?_concat,Option.map_some,Option.getD_some]
  cases List.mem_append.mp he with
  | inl hf => exact Nat.le_of_lt ((List.pairwise_append.mp h).2.2 e hf z List.mem_cons_self)
  | inr hs => exact Nat.le_of_eq (congrArg Prod.fst (List.mem_singleton.mp hs))

theorem unread_ascends (cap : Nat) (r : Reader α) : (r.unread cap).Pairwise (fun a b => a.1 < b.1) :=
  (kept_ascends cap r.log).filter _

theorem step_poll (cap : Nat) (r : Reader α) :
    r.step cap .poll=⟨r.log,lastNumber (r.unread cap) r.last,r.got++r.unread cap⟩ := rfl

/-- After a poll nothing of the log is behind the reader. -/
theorem poll_last (hcap : 0 < cap) (h : r.Read) : (r.step cap .poll).last=r.log.length := by
  change lastNumber (r.unread cap) r.last=r.log.length
  by_cases hread : r.last=r.log.length
  · have hnone : r.unread cap=[] := by
      rw [List.eq_nil_iff_forall_not_mem]
      intro e he
      obtain ⟨hk,hlt⟩ := mem_unread.mp he
      have hle := numbered_le (mem_kept.mp hk).1
      omega
    rw [hnone]
    exact hread
  · have hlast := h.last
    apply Nat.le_antisymm
    · cases hl : (r.unread cap).getLast? with
      | none =>
        rw [lastNumber,hl]
        exact hlast
      | some e =>
        rw [lastNumber,hl,Option.map_some,Option.getD_some]
        exact numbered_le (mem_kept.mp (mem_unread.mp (List.mem_of_getLast? hl)).1).1
    · -- the newest entry is kept, and is unread
      have hpos : r.log.length-1 < r.log.length := by omega
      have hnum : r.log.length-1+1=r.log.length := by omega
      have hmem : (r.log.length,r.log.get ⟨r.log.length-1,hpos⟩)∈numbered r.log := by
        rw [mem_numbered]
        exact ⟨by omega,List.getElem?_eq_getElem hpos⟩
      have hkept := mem_kept.mpr ⟨hmem,Nat.lt_add_of_pos_right hcap⟩
      exact lastNumber_of_mem (unread_ascends cap r) (mem_unread.mpr ⟨hkept,by dsimp only; omega⟩)

theorem step_read (hcap : 0 < cap) (h : r.Read) (c : Call α) : (r.step cap c).Read := by
  cases c with
  | publish a =>
    refine ⟨?_,h.ascends,h.below,?_⟩
    · change r.last ≤ (r.log++[a]).length
      rw [List.length_append]
      exact Nat.le_add_right_of_le h.last
    · intro e he
      change e∈numbered (r.log++[a])
      rw [numbered_append]
      exact List.mem_append_left _ (h.logged e he)
  | poll =>
    have hpoll := poll_last hcap h
    refine ⟨Nat.le_of_eq hpoll,?_,?_,?_⟩
    · apply List.pairwise_append.mpr
      refine ⟨h.ascends,unread_ascends cap r,?_⟩
      intro x hx y hy
      exact Nat.lt_of_le_of_lt (h.below x hx) (mem_unread.mp hy).2
    · intro e he
      rw [hpoll]
      cases List.mem_append.mp he with
      | inl hg => exact Nat.le_trans (h.below e hg) h.last
      | inr hu => exact numbered_le (mem_kept.mp (mem_unread.mp hu).1).1
    · intro e he
      cases List.mem_append.mp he with
      | inl hg => exact h.logged e hg
      | inr hu => exact (mem_kept.mp (mem_unread.mp hu).1).1

theorem run_read (hcap : 0 < cap) (calls : List (Call α)) (h : r.Read) : (calls.foldl (Reader.step cap) r).Read := by
  induction calls generalizing r with
  | nil => exact h
  | cons c calls ih => exact ih (step_read hcap h c)

theorem new_read : (Reader.new : Reader α).Read :=
  ⟨Nat.le_refl 0,List.Pairwise.nil,by simp [Reader.new],by simp [Reader.new]⟩

theorem run_log (calls : List (Call α)) (r : Reader α) :
    (calls.foldl (Reader.step cap) r).log=r.log++published calls := by
  induction calls generalizing r with
  | nil => exact (List.append_nil _).symm
  | cons c calls ih =>
    rw [List.foldl_cons,ih]
    cases c with
    | publish a => exact List.append_assoc _ _ _
    | poll => rfl

/-- What is handed out later has higher numbers. -/
theorem run_got (hcap : 0 < cap) (calls : List (Call α)) (h : r.Read) :
    ∃more,(calls.foldl (Reader.step cap) r).got=r.got++more ∧ ∀e∈more,r.last < e.1 := by
  induction calls generalizing r with
  | nil => exact ⟨[],(List.append_nil _).symm,by simp⟩
  | cons c calls ih =>
    obtain ⟨more,hgot,hmore⟩ := ih (step_read hcap h c)
    rw [List.foldl_cons,hgot]
    cases c with
    | publish a => exact ⟨more,rfl,hmore⟩
    | poll =>
      refine ⟨r.unread cap++more,List.append_assoc _ _ _,?_⟩
      intro e he
      cases List.mem_append.mp he with
      | inl hu => exact (mem_unread.mp hu).2
      | inr hm =>
        have hlt := hmore e hm
        rw [poll_last hcap h] at hlt
        exact Nat.lt_of_le_of_lt h.last hlt

theorem burst_run (burst : List α) (r : Reader α) :
    (burst.map Call.publish).foldl (Reader.step cap) r={ r with log := r.log++burst } := by
  induction burst generalizing r with
  | nil => simp
  | cons b burst ih =>
    rw [List.map_cons,List.foldl_cons,ih]
    simp [Reader.step]

/-- An entry is handed out exactly when fewer than `cap` come between it and the next poll. -/
theorem run_delivers (hcap : 0 < cap) (h : r.Read) (a : α) (burst : List α) (rest : List (Call α)) :
    (r.log.length+1,a)∈((Call.publish a::(burst.map Call.publish++Call.poll::rest)).foldl (Reader.step cap) r).got ↔
      burst.length < cap := by
  have hsplit : (Call.publish a::(burst.map Call.publish++Call.poll::rest)).foldl (Reader.step cap) r=
      rest.foldl (Reader.step cap) (Reader.step cap { r with log := r.log++a::burst } .poll) := by
    rw [List.foldl_cons,List.foldl_append,burst_run,List.foldl_cons]
    simp [Reader.step]
  have hbefore : Reader.Read { r with log := r.log++a::burst } := by
    have hrun := run_read hcap ((a::burst).map Call.publish) h
    rw [burst_run] at hrun
    exact hrun
  have hlen : (r.log++a::burst).length=r.log.length+1+burst.length := by
    rw [List.length_append,List.length_cons]
    omega
  have hlast := h.last
  obtain ⟨more,hgot,hmore⟩ := run_got hcap rest (step_read hcap hbefore .poll)
  rw [hsplit,hgot]
  constructor
  · intro hmem
    cases List.mem_append.mp hmem with
    | inl hpolled =>
      cases List.mem_append.mp hpolled with
      | inl hold =>
        have hle := h.below _ hold
        dsimp only at hle
        omega
      | inr hnew =>
        have hk := (mem_kept.mp (mem_unread.mp hnew).1).2
        dsimp only at hk
        omega
    | inr hlater =>
      have hlt := hmore _ hlater
      rw [poll_last hcap hbefore,hlen] at hlt
      dsimp only at hlt
      omega
  · intro hlt
    apply List.mem_append_left
    apply List.mem_append_right
    apply mem_unread.mpr
    refine ⟨mem_kept.mpr ⟨mem_numbered_mid r.log burst a,?_⟩,?_⟩
    · dsimp only
      omega
    · dsimp only
      omega

end Run

end Bolina.NumberedLog
