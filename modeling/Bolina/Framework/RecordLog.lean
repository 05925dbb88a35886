import Mathlib.Data.List.Basic
import Mathlib.Data.List.Infix

namespace Bolina.RecordLog

variable {α ρ : Type*}

/-- A self-delimiting record format: the first symbol of a record tells how long
the record is, and its bytes tell which record it is. -/
structure Format (α ρ : Type*) where
  need : α → Option Nat
  bytes : ρ → List α
  decode : List α → ρ
  framed : ∀r,∃t rest,bytes r=t::rest ∧ need t=some (bytes r).length
  decode_bytes : ∀r,decode (bytes r)=r
  need_pos : ∀t n,need t=some n → 0<n

namespace Format

variable (F : Format α ρ)

def encode (rs : List ρ) : List α := rs.flatMap F.bytes

/-- The unfinished end of a log: nothing, or the beginning of one record. -/
def Torn (p : List α) : Prop :=
  p=[] ∨ ∃t rest n,p=t::rest ∧ F.need t=some n ∧ p.length<n

/-- Reads records off the front until the input is used up or a record is cut
short; `false` when a symbol opens no record. -/
def scan : Nat → List α → List ρ × Bool
  | 0,_ => ([],true)
  | _+1,[] => ([],true)
  | k+1,t::rest =>
    match F.need t with
    | none => ([],false)
    | some n =>
      if (t::rest).length<n then ([],true)
      else
        let tail := scan k ((t::rest).drop n)
        (F.decode ((t::rest).take n)::tail.1,tail.2)

/-- The records of a log, as a reader that starts at its first symbol sees them. -/
def records (xs : List α) : List ρ := (F.scan xs.length xs).1

@[simp] theorem encode_nil : F.encode []=[] := rfl

@[simp] theorem encode_cons (r : ρ) (rs : List ρ) : F.encode (r::rs)=F.bytes r++F.encode rs := rfl

@[simp] theorem encode_append (rs ss : List ρ) : F.encode (rs++ss)=F.encode rs++F.encode ss := by
  simp [encode]

theorem encode_concat (rs : List ρ) (r : ρ) : F.encode (rs++[r])=F.encode rs++F.bytes r := by simp

theorem bytes_ne_nil (r : ρ) : F.bytes r≠[] := by
  obtain ⟨t,rest,hb,_⟩ := F.framed r
  rw [hb]
  exact List.cons_ne_nil t rest

theorem bytes_length_pos (r : ρ) : 0<(F.bytes r).length :=
  List.length_pos_of_ne_nil (F.bytes_ne_nil r)

theorem torn_nil : F.Torn [] := Or.inl rfl

theorem torn_of_prefix (r : ρ) (p : List α) (hp : p<+:F.bytes r) (hl : p.length<(F.bytes r).length) :
    F.Torn p := by
  cases p with
  | nil => exact F.torn_nil
  | cons t rest =>
    obtain ⟨u,tail,hb,hn⟩ := F.framed r
    obtain ⟨q,hq⟩ := hp
    have ht : t=u := by
      rw [hb,List.cons_append] at hq
      exact (List.cons.inj hq).1
    exact Or.inr ⟨t,rest,_,rfl,ht ▸ hn,hl⟩

theorem scan_record (k : Nat) (r : ρ) (rest : List α) :
    F.scan (k+1) (F.bytes r++rest)=(r::(F.scan k rest).1,(F.scan k rest).2) := by
  obtain ⟨t,tail,hb,hn⟩ := F.framed r
  have hd : (t::(tail++rest)).drop (F.bytes r).length=rest := by
    rw [← List.cons_append,← hb,List.drop_left]
  have ht : (t::(tail++rest)).take (F.bytes r).length=F.bytes r := by
    rw [← List.cons_append,← hb,List.take_left]
  have hl : ¬(t::(tail++rest)).length<(F.bytes r).length := by
    rw [← List.cons_append,← hb,List.length_append]
    omega
  rw [hb,List.cons_append,scan,hn]
  dsimp only
  rw [if_neg hl,hd,ht,F.decode_bytes]

theorem scan_torn (k : Nat) (p : List α) (hp : F.Torn p) : F.scan k p=([],true) := by
  cases k with
  | zero => rfl
  | succ k =>
    obtain rfl|⟨t,rest,n,rfl,hn,hl⟩ := hp
    · rfl
    · rw [scan,hn]
      exact if_pos hl

/-- Fuel beyond the length of the input changes nothing. -/
theorem scan_fuel (k : Nat) (xs : List α) (hk : xs.length ≤ k) : F.scan k xs=F.scan xs.length xs := by
  induction k using Nat.strong_induction_on generalizing xs with
  | h k ih =>
    cases xs with
    | nil => cases k <;> rfl
    | cons t rest =>
      cases k with
      | zero => simp at hk
      | succ k =>
        rw [List.length_cons,scan,scan]
        cases hn : F.need t with
        | none => rfl
        | some n =>
          have hpos := F.need_pos t n hn
          have hdrop : ((t::rest).drop n).length ≤ rest.length := by
            rw [List.length_drop,List.length_cons]
            omega
          have hk' : rest.length ≤ k := by simpa using hk
          have hleft := ih k (Nat.lt_succ_self k) _ (hdrop.trans hk')
          have hright := ih rest.length (by omega) _ hdrop
          simp only [hleft,hright]

theorem scan_encode (k : Nat) (rs : List ρ) (p : List α) (hp : F.Torn p)
    (hk : (F.encode rs++p).length ≤ k) : F.scan k (F.encode rs++p)=(rs,true) := by
  induction rs generalizing k with
  | nil => exact F.scan_torn k p hp
  | cons r rs ih =>
    have hpos := F.bytes_length_pos r
    rw [encode_cons,List.append_assoc,List.length_append] at hk
    cases k with
    | zero => omega
    | succ k => rw [encode_cons,List.append_assoc,scan_record,ih k (by omega)]

theorem scan_append (k : Nat) (rs : List ρ) (xs : List α) (hk : (F.encode rs++xs).length ≤ k) :
    (F.scan k (F.encode rs++xs)).1=rs++F.records xs := by
  induction rs generalizing k with
  | nil => rw [encode_nil,List.nil_append,records,F.scan_fuel k xs (by simpa using hk)]; rfl
  | cons r rs ih =>
    have hpos := F.bytes_length_pos r
    rw [encode_cons,List.append_assoc,List.length_append] at hk
    cases k with
    | zero => omega
    | succ k => rw [encode_cons,List.append_assoc,scan_record,ih k (by omega)]; rfl

theorem records_append (rs : List ρ) (xs : List α) : F.records (F.encode rs++xs)=rs++F.records xs :=
  F.scan_append _ rs xs (Nat.le_refl _)

theorem records_encode (rs : List ρ) (p : List α) (hp : F.Torn p) : F.records (F.encode rs++p)=rs := by
  rw [records,F.scan_encode _ rs p hp (Nat.le_refl _)]

/-- The end of a log that opens no record. -/
def Stray (p : List α) : Prop := ∃t rest,p=t::rest ∧ F.need t=none

theorem scan_stray (k : Nat) (rs : List ρ) (p : List α) (hp : F.Stray p)
    (hk : (F.encode rs++p).length ≤ k) : F.scan k (F.encode rs++p)=(rs,false) := by
  induction rs generalizing k with
  | nil =>
    obtain ⟨t,rest,rfl,hn⟩ := hp
    cases k with
    | zero => simp at hk
    | succ k =>
      rw [encode_nil,List.nil_append,scan,hn]
  | cons r rs ih =>
    have hpos := F.bytes_length_pos r
    rw [encode_cons,List.append_assoc,List.length_append] at hk
    cases k with
    | zero => omega
    | succ k => rw [encode_cons,List.append_assoc,scan_record,ih k (by omega)]

/-- Whatever has the length it announces is a record. -/
def Total : Prop := ∀t rest,F.need t=some (t::rest).length → F.bytes (F.decode (t::rest))=t::rest

/-- Any input is a run of records and an end that is cut short or opens none. -/
theorem exists_split (hF : F.Total) (xs : List α) : ∃rs p,xs=F.encode rs++p ∧ (F.Torn p ∨ F.Stray p) := by
  induction h : xs.length using Nat.strong_induction_on generalizing xs with
  | h n ih =>
    cases xs with
    | nil => exact ⟨[],[],rfl,Or.inl F.torn_nil⟩
    | cons t rest =>
      cases hn : F.need t with
      | none => exact ⟨[],t::rest,rfl,Or.inr ⟨t,rest,rfl,hn⟩⟩
      | some m =>
        by_cases hl : (t::rest).length < m
        · exact ⟨[],t::rest,rfl,Or.inl (Or.inr ⟨t,rest,m,rfl,hn,hl⟩)⟩
        · have hpos := F.need_pos t m hn
          have htake : (t::rest).take m=t::rest.take (m-1) := by
            cases m with
            | zero => omega
            | succ m => rfl
          have hlen : (t::rest.take (m-1)).length=m := by
            rw [← htake,List.length_take]
            omega
          have hshort : ((t::rest).drop m).length < n := by
            rw [List.length_drop]
            omega
          obtain ⟨rs,p,hrs,hp⟩ := ih _ hshort _ rfl
          refine ⟨F.decode ((t::rest).take m)::rs,p,?_,hp⟩
          rw [encode_cons,htake,hF t _ (by rw [hn,hlen]),← htake,List.append_assoc,← hrs,List.take_append_drop]

end Format

/-- What a file holds after `data` is written at offset `pos`: bytes behind the
write stay, and a gap in front of it reads as `zero`. -/
def writeAt (zero : α) (file : List α) (pos : Nat) (data : List α) : List α :=
  file.take pos++List.replicate (pos-file.length) zero++data++file.drop (pos+data.length)

theorem writeAt_length (zero : α) (file : List α) (pos : Nat) (data : List α) :
    (writeAt zero file pos data).length=max file.length (pos+data.length) := by
  simp only [writeAt,List.length_append,List.length_take,List.length_replicate,List.length_drop]
  omega

@[simp] theorem writeAt_end (zero : α) (file data : List α) :
    writeAt zero file file.length data=file++data := by
  simp [writeAt,List.drop_eq_nil_of_le]

/-- A write appends exactly when it starts at the end of the file. -/
theorem writeAt_eq_append_iff (zero : α) (file : List α) (pos : Nat) (data : List α)
    (hd : data≠[]) : writeAt zero file pos data=file++data ↔ pos=file.length := by
  constructor
  · intro h
    have hpos := List.length_pos_of_ne_nil hd
    have hl := congrArg List.length h
    rw [writeAt_length,List.length_append] at hl
    omega
  · intro h
    rw [h,writeAt_end]

theorem writeAt_take (zero : α) (file : List α) (pos : Nat) (data : List α) (hp : pos ≤ file.length) :
    writeAt zero file pos data=file.take pos++(data++file.drop (pos+data.length)) := by
  simp [writeAt,Nat.sub_eq_zero_of_le hp]

/-- A record written over a file at the end of whole records reads back. -/
theorem Format.mem_records_writeAt (F : Format α ρ) (zero : α) (file : List α) (pos : Nat) (rs : List ρ)
    (r : ρ) (hp : pos ≤ file.length) (h : file.take pos=F.encode rs) :
    r∈F.records (writeAt zero file pos (F.bytes r)) := by
  have hr : F.bytes r++file.drop (pos+(F.bytes r).length)=
      F.encode [r]++file.drop (pos+(F.bytes r).length) := by simp
  rw [writeAt_take _ _ _ _ hp,h,hr,F.records_append,F.records_append]
  simp

end Bolina.RecordLog
