import Bolina.Framework.BigEndian

namespace Bolina.SelfDelimiting

open BigEndian

variable {α β γ : Type*}

/-- A code word of the kind `P` tells where it ends, whatever follows it. -/
def Delimits (P : α → Prop) (code : α → List γ) : Prop :=
  ∀a b x y,P a → P b → code a++x=code b++y → a=b ∧ x=y

section Codes

variable {P : α → Prop} {Q : β → Prop} {code : α → List γ} {code' : β → List γ}

/-- Words of one length. -/
theorem delimits_of_length (n : Nat) (hlen : ∀a,P a → (code a).length=n)
    (hinj : ∀a b,P a → P b → code a=code b → a=b) : Delimits P code := by
  intro a b x y ha hb h
  obtain ⟨hc,hx⟩ := List.append_inj h ((hlen a ha).trans (hlen b hb).symm)
  exact ⟨hinj a b ha hb hc,hx⟩

/-- One word behind another. -/
theorem Delimits.pair (h : Delimits P code) (h' : Delimits Q code') :
    Delimits (fun p : α × β => P p.1 ∧ Q p.2) (fun p => code p.1++code' p.2) := by
  intro hw hw' x y hp hq he
  obtain ⟨a,b⟩ := hw
  obtain ⟨c,d⟩ := hw'
  simp only [List.append_assoc] at he
  obtain ⟨rfl,hrest⟩ := h _ _ _ _ hp.1 hq.1 he
  obtain ⟨rfl,hxy⟩ := h' _ _ _ _ hp.2 hq.2 hrest
  exact ⟨rfl,hxy⟩

/-- As many words on both sides. -/
theorem Delimits.flatMap (h : Delimits P code) {xs ys : List α} (hxs : ∀a∈xs,P a) (hys : ∀a∈ys,P a)
    (hlen : xs.length=ys.length) {x y : List γ} (he : xs.flatMap code++x=ys.flatMap code++y) : xs=ys ∧ x=y := by
  induction xs generalizing ys with
  | nil =>
    have hnil : ys=[] := List.eq_nil_of_length_eq_zero hlen.symm
    subst hnil
    exact ⟨rfl,he⟩
  | cons a xs ih =>
    cases ys with
    | nil => cases hlen
    | cons b ys =>
      obtain ⟨ha,hxs'⟩ := List.forall_mem_cons.mp hxs
      obtain ⟨hb,hys'⟩ := List.forall_mem_cons.mp hys
      rw [List.flatMap_cons,List.flatMap_cons,List.append_assoc,List.append_assoc] at he
      obtain ⟨rfl,hrest⟩ := h _ _ _ _ ha hb he
      obtain ⟨rfl,hxy⟩ := ih hxs' hys' (Nat.succ.inj hlen) hrest
      exact ⟨rfl,hxy⟩

/-- Words with nothing behind them. -/
theorem Delimits.flatMap_inj (h : Delimits P code) (hne : ∀a,P a → code a≠[]) {xs ys : List α}
    (hxs : ∀a∈xs,P a) (hys : ∀a∈ys,P a) (he : xs.flatMap code=ys.flatMap code) : xs=ys := by
  induction xs generalizing ys with
  | nil =>
    cases ys with
    | nil => rfl
    | cons b ys =>
      have hb := hne b (hys b List.mem_cons_self)
      rw [List.flatMap_nil,List.flatMap_cons] at he
      exact absurd (List.append_eq_nil_iff.mp he.symm).1 hb
  | cons a xs ih =>
    cases ys with
    | nil =>
      have ha := hne a (hxs a List.mem_cons_self)
      rw [List.flatMap_nil,List.flatMap_cons] at he
      exact absurd (List.append_eq_nil_iff.mp he).1 ha
    | cons b ys =>
      obtain ⟨ha,hxs'⟩ := List.forall_mem_cons.mp hxs
      obtain ⟨hb,hys'⟩ := List.forall_mem_cons.mp hys
      rw [List.flatMap_cons,List.flatMap_cons] at he
      obtain ⟨rfl,hrest⟩ := h _ _ _ _ ha hb he
      rw [ih hxs' hys' hrest]

end Codes

section Prefixed

/-- A length of `w` bytes in front of that many bytes. -/
def prefixed (w : Nat) (bs : Bytes) : Bytes := beBytes w bs.length++bs

/-- A count of `w` bytes in front of that many words. -/
def counted (w : Nat) (code : α → Bytes) (xs : List α) : Bytes := beBytes w xs.length++xs.flatMap code

/-- A number of `w` bytes. -/
theorem delimits_beBytes (w : Nat) : Delimits (fun n => n < 256^w) (beBytes w) := by
  apply delimits_of_length w (fun n _ => beBytes_length w n)
  intro m n hm hn h
  have hv := congrArg beNat h
  rwa [beNat_beBytes,beNat_beBytes,Nat.mod_eq_of_lt hm,Nat.mod_eq_of_lt hn] at hv

theorem delimits_prefixed (w : Nat) : Delimits (fun bs : Bytes => bs.length < 256^w) (prefixed w) := by
  intro a b x y ha hb h
  rw [prefixed,prefixed,List.append_assoc,List.append_assoc] at h
  obtain ⟨hlen,hrest⟩ := delimits_beBytes w _ _ _ _ ha hb h
  exact List.append_inj hrest hlen

theorem Delimits.counted {P : α → Prop} {code : α → Bytes} (h : Delimits P code) (w : Nat) :
    Delimits (fun xs : List α => xs.length < 256^w ∧ ∀a∈xs,P a) (SelfDelimiting.counted w code) := by
  intro xs ys x y hxs hys he
  rw [SelfDelimiting.counted,SelfDelimiting.counted,List.append_assoc,List.append_assoc] at he
  obtain ⟨hlen,hrest⟩ := delimits_beBytes w _ _ _ _ hxs.1 hys.1 he
  exact h.flatMap hxs.2 hys.2 hlen hrest

end Prefixed

end Bolina.SelfDelimiting
