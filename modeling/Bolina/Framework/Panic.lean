import Mathlib.Data.List.Basic
import Mathlib.Data.Vector.Basic
import Mathlib.Logic.Function.Basic

/-! Operations that end the program where they leave their range; `none` is the panic. -/

namespace Bolina.Panic

section Words

/-- The first number a machine word does not hold. -/
def wordLimit : Nat := 2^64

def add (a b : Nat) : Option Nat := if a+b < wordLimit then some (a+b) else none
def sub (a b : Nat) : Option Nat := if b ≤ a then some (a-b) else none
def mul (a b : Nat) : Option Nat := if a*b < wordLimit then some (a*b) else none

/-- An addition in a type narrower than a word. -/
def addBelow (limit a b : Nat) : Option Nat := if a+b < limit then some (a+b) else none

def add64 (a b : UInt64) : Option UInt64 := if a.toNat+b.toNat < wordLimit then some (a+b) else none
def sub64 (a b : UInt64) : Option UInt64 := if b ≤ a then some (a-b) else none
def mul64 (a b : UInt64) : Option UInt64 := if a.toNat*b.toNat < wordLimit then some (a*b) else none

/-- A shift by the width of the word or more is an overflow. -/
def shl64 (a s : UInt64) : Option UInt64 := if s < 64 then some (a<<<s) else none
def shr64 (a s : UInt64) : Option UInt64 := if s < 64 then some (a>>>s) else none

variable {a b : Nat}

theorem add_eq (h : a+b < wordLimit) : add a b=some (a+b) := if_pos h
theorem addBelow_eq {limit : Nat} (h : a+b < limit) : addBelow limit a b=some (a+b) := if_pos h
theorem sub_eq (h : b ≤ a) : sub a b=some (a-b) := if_pos h
theorem mul_eq (h : a*b < wordLimit) : mul a b=some (a*b) := if_pos h

end Words

section Slices

variable {α : Type*} (xs dst src : List α)

def index (i : Nat) : Option α := xs[i]?

def setAt (i : Nat) (a : α) : Option (List α) := if i < xs.length then some (List.set xs i a) else none

/-- The elements from `lo` up to `hi`. -/
def range (lo hi : Nat) : Option (List α) :=
  if lo ≤ hi ∧ hi ≤ xs.length then some ((xs.drop lo).take (hi-lo)) else none

def splitAt (mid : Nat) : Option (List α × List α) :=
  if mid ≤ xs.length then some (xs.take mid,xs.drop mid) else none

/-- A copy over a slice, which has to be as long as the source. -/
def copy : Option (List α) := if dst.length=src.length then some src else none

/-- A copy over the part of an array from `lo` up to `hi`. -/
def copyTo (lo hi : Nat) : Option (List α) := do
  let part ← range dst lo hi
  let part ← copy part src
  return dst.take lo++(part++dst.drop hi)

/-- A slice as an array of `n` elements. -/
def exact (n : Nat) : Option (List.Vector α n) := if h : xs.length=n then some ⟨xs,h⟩ else none

variable {xs dst src}

theorem index_eq {i : Nat} (h : i < xs.length) : index xs i=some xs[i] := List.getElem?_eq_getElem h

theorem range_add {lo n : Nat} (h : lo+n ≤ xs.length) : range xs lo (lo+n)=some ((xs.drop lo).take n) := by
  rw [range,if_pos ⟨Nat.le_add_right lo n,h⟩,Nat.add_sub_cancel_left]

theorem range_front {n : Nat} (h : n ≤ xs.length) : range xs 0 n=some (xs.take n) := by
  rw [range,if_pos ⟨Nat.zero_le n,h⟩,List.drop_zero,Nat.sub_zero]

theorem range_back {n : Nat} (h : n ≤ xs.length) : range xs n xs.length=some (xs.drop n) := by
  rw [range,if_pos ⟨h,le_rfl⟩,← List.length_drop,List.take_length]

theorem splitAt_eq {n : Nat} (h : n ≤ xs.length) : splitAt xs n=some (xs.take n,xs.drop n) := if_pos h

theorem copy_eq (h : dst.length=src.length) : copy dst src=some src := if_pos h

theorem copyTo_eq {lo hi : Nat} (hlo : lo ≤ hi) (hhi : hi ≤ dst.length) (h : hi-lo=src.length) :
    copyTo dst src lo hi=some (dst.take lo++(src++dst.drop hi)) := by
  have hl : ((dst.drop lo).take (hi-lo)).length=src.length := by
    rw [List.length_take,List.length_drop]
    omega
  rw [copyTo,range,if_pos ⟨hlo,hhi⟩]
  simp only [Option.bind_eq_bind,Option.bind_some,copy_eq hl,pure]

/-- A copy behind what is written already. -/
theorem copyTo_next (written rest : List α) {lo hi : Nat} (hlo : lo=written.length) (hhi : hi=lo+src.length)
    (h : src.length ≤ rest.length) :
    copyTo (written++rest) src lo hi=some ((written++src)++rest.drop src.length) := by
  have hlen : (written++rest).length=written.length+rest.length := List.length_append
  have hd : (written++rest).drop (written.length+src.length)=rest.drop src.length := by
    rw [← List.drop_drop,List.drop_left]
  rw [hhi,hlo,copyTo_eq (Nat.le_add_right _ _) (by omega) (Nat.add_sub_cancel_left _ _),List.take_left,hd,
    List.append_assoc]

theorem exact_eq {n : Nat} (h : xs.length=n) : exact xs n=some ⟨xs,h⟩ := dif_pos h

/-- A loop whose steps all stay in range is a map. -/
theorem mapM_some {β : Type*} (f : α → Option β) (g : α → β) (xs : List α) (h : ∀x∈xs,f x=some (g x)) :
    xs.mapM f=some (xs.map g) := by
  induction xs with
  | nil => rfl
  | cons x xs ih =>
    rw [List.mapM_cons,h x List.mem_cons_self,ih (fun y hy => h y (List.mem_cons_of_mem _ hy))]
    rfl

end Slices

section Places

variable {α : Type*} {n : Nat} (slots : Fin n → α)

/-- The element at an index of an array of `n` places. -/
def place (i : Nat) : Option α := if h : i < n then some (slots ⟨i,h⟩) else none

def setPlace (i : Nat) (a : α) : Option (Fin n → α) :=
  if h : i < n then some (Function.update slots ⟨i,h⟩ a) else none

theorem place_fin (i : Fin n) : place slots i=some (slots i) := dif_pos i.isLt

theorem setPlace_fin (i : Fin n) (a : α) : setPlace slots i a=some (Function.update slots i a) := dif_pos i.isLt

end Places

section Programs

universe u

variable {σ ε α β : Type u} {I : σ → Prop}

/-- From every state in `I` the checked program `p` does what `q` does, and where it
succeeds, its value and its state are in `J`. -/
def Runs (I : σ → Prop) (p : StateT σ (ExceptT ε Option) α) (q : StateT σ (Except ε) α) (J : α → σ → Prop) : Prop :=
  ∀s,I s → p s=ExceptT.mk (some (q s)) ∧ ∀a s',q s=.ok (a,s') → J a s'

/-- An operation inside a checked program. -/
def checked (o : Option α) : StateT σ (ExceptT ε Option) α := fun s => ExceptT.mk (o.map (fun a => .ok (a,s)))

/-- A program from the start to its value. -/
def runFrom (p : StateT σ (ExceptT ε Option) α) (s : σ) : Option (Except ε α) :=
  (ExceptT.run (p s)).map (fun r => r.map Prod.fst)

section Step

variable {p : StateT σ (ExceptT ε Option) α} {f : α → StateT σ (ExceptT ε Option) β} {s s' : σ} {a : α}

theorem step_ok (h : p s=ExceptT.mk (some (.ok (a,s')))) : (p>>=f) s=f a s' := by
  simp only [bind,StateT.bind,h]
  rfl

theorem step_error {e : ε} (h : p s=ExceptT.mk (some (.error e))) :
    (p>>=f) s=ExceptT.mk (some (.error e)) := by
  simp only [bind,StateT.bind,h]
  rfl

theorem step_checked {o : Option α} (h : o=some a) : (checked o>>=f) s=f a s := by
  apply step_ok
  rw [checked,h]
  rfl

theorem step_get (f : σ → StateT σ (ExceptT ε Option) β) : (get>>=f) s=f s s := rfl

theorem step_set (f : PUnit → StateT σ (ExceptT ε Option) β) : (set s'>>=f) s=f ⟨⟩ s' := rfl

end Step

theorem runs_pure (a : α) : Runs I (pure a : StateT σ (ExceptT ε Option) α) (pure a) (fun _ => I) := by
  intro s hs
  refine ⟨rfl,fun b s' h => ?_⟩
  cases h
  exact hs

/-- The rule of the sequence. -/
theorem runs_bind {p : StateT σ (ExceptT ε Option) α} {q : StateT σ (Except ε) α} {J : α → σ → Prop}
    {p' : α → StateT σ (ExceptT ε Option) β} {q' : α → StateT σ (Except ε) β} {L : β → σ → Prop}
    (h : Runs I p q J) (h' : ∀a,Runs (J a) (p' a) (q' a) L) : Runs I (p>>=p') (q>>=q') L := by
  intro s hs
  obtain ⟨hp,hq⟩ := h s hs
  cases hr : q s with
  | error e =>
    have hfail : (q>>=q') s=.error e := by simp only [bind,StateT.bind,hr,Except.bind]
    refine ⟨?_,fun b s' hb => ?_⟩
    · rw [hfail]
      simp only [bind,StateT.bind,hp,hr]
      rfl
    · rw [hfail] at hb
      cases hb
  | ok r =>
    obtain ⟨a,s'⟩ := r
    have hnext : (q>>=q') s=q' a s' := by simp only [bind,StateT.bind,hr,Except.bind]
    obtain ⟨hp',hq'⟩ := h' a s' (hq a s' hr)
    refine ⟨?_,fun b t hb => hq' b t (hnext ▸ hb)⟩
    rw [hnext,← hp']
    simp only [bind,StateT.bind,hp,hr]
    rfl

theorem runs_mono {p : StateT σ (ExceptT ε Option) α} {q : StateT σ (Except ε) α} {I' : σ → Prop}
    {J J' : α → σ → Prop} (h : Runs I p q J) (hI : ∀s,I' s → I s) (hJ : ∀a s,J a s → J' a s) : Runs I' p q J' := by
  intro s hs
  obtain ⟨hp,hq⟩ := h s (hI s hs)
  exact ⟨hp,fun a s' ha => hJ a s' (hq a s' ha)⟩

theorem runs_get : Runs I (get : StateT σ (ExceptT ε Option) σ) get (fun s t => t=s ∧ I t) := by
  intro s hs
  refine ⟨rfl,fun a s' h => ?_⟩
  cases h
  exact ⟨rfl,hs⟩

/-- An operation that stays in its range on every state in `I`. -/
theorem runs_checked {o : Option α} {a : α} {p : α → StateT σ (ExceptT ε Option) β} {q : StateT σ (Except ε) β}
    {J : β → σ → Prop} (h : ∀s,I s → o=some a) (h' : Runs I (p a) q J) : Runs I (checked o>>=p) q J := by
  intro s hs
  rw [step_checked (h s hs)]
  exact h' s hs

theorem runs_throw (e : ε) (J : α → σ → Prop) : Runs I (throw e) (throw e) J := by
  intro s _
  refine ⟨rfl,fun a s' h => ?_⟩
  cases h

theorem runs_ite {c : Prop} [Decidable c] {p p' : StateT σ (ExceptT ε Option) α} {q q' : StateT σ (Except ε) α}
    {J : α → σ → Prop} (h : c → Runs I p q J) (h' : ¬c → Runs I p' q' J) :
    Runs I (if c then p else p') (if c then q else q') J := by
  split
  · exact h ‹_›
  · exact h' ‹_›

/-- A checked program that runs like `q` ends with the value of `q`. -/
theorem runFrom_eq {p : StateT σ (ExceptT ε Option) α} {q : StateT σ (Except ε) α} {J : α → σ → Prop}
    (h : Runs I p q J) {s : σ} (hs : I s) : runFrom p s=some (q.run' s) := by
  rw [runFrom,(h s hs).1]
  cases hr : q s <;> simp [StateT.run',hr,ExceptT.run,ExceptT.mk,Except.map]

end Programs

end Bolina.Panic
