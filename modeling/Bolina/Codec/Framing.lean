import Bolina.Codec.Codec

namespace Bolina.Codec

open BigEndian

/-- The words of a format: which bytes stand for a value after the bytes already read. -/
abbrev Format (α : Type) := Bytes → α → Bytes → Prop

/-- A parser reads the words of its format, nothing else, and asks for more bytes
at every cut of one of them. -/
structure Codes {α : Type} (x : Parser α) (R : Format α) : Prop where
  reads : ∀front a w rest,R front a w →
    x ⟨front++(w++rest),front.length⟩=.ok (a,⟨front++(w++rest),(front++w).length⟩)
  only : ∀front rest a c,x ⟨front++rest,front.length⟩=.ok (a,c) →
    ∃w back,rest=w++back ∧ c=⟨front++rest,(front++w).length⟩ ∧ R front a w
  short : ∀front a v t,R front a (v++t) → t≠[] → x ⟨front++v,front.length⟩=.error .Truncated

section Steps

variable {α β : Type}

theorem bind_run (x : Parser α) (f : α → Parser β) (c c' : Cursor) (a : α) (h : x c=.ok (a,c')) :
    (x>>=f) c=f a c' := by
  simp only [bind,StateT.bind,h]
  rfl

theorem bind_fail (x : Parser α) (f : α → Parser β) (c : Cursor) (e : ParseError) (h : x c=.error e) :
    (x>>=f) c=.error e := by
  simp only [bind,StateT.bind,h]
  rfl

/-- A cut of two words ends in the first or in the second. -/
theorem cut_append (u v s t : Bytes) (h : u++v=s++t) :
    (∃d,d≠[] ∧ u=s++d) ∨ ∃d,s=u++d ∧ v=d++t := by
  rcases List.append_eq_append_iff.mp h with ⟨d,hs,hv⟩ | ⟨d,hu,hv⟩
  · exact .inr ⟨d,hs,hv⟩
  · by_cases hd : d=[]
    · subst hd
      exact .inr ⟨[],by simpa using hu.symm,by simpa using hv.symm⟩
    · exact .inl ⟨d,hd,hu⟩

theorem Codes.bind {x : Parser α} {R : Format α} {f : α → Parser β} {S : α → Format β}
    (hx : Codes x R) (hf : ∀a,Codes (f a) (S a)) :
    Codes (x>>=f) (fun front b w => ∃a u v,w=u++v ∧ R front a u ∧ S a (front++u) b v) := by
  refine ⟨?_,?_,?_⟩
  · intro front b _ rest hw
    obtain ⟨a,u,v,rfl,hu,hv⟩ := hw
    have hr := hx.reads front a u (v++rest) hu
    have hs := (hf a).reads (front++u) b v rest hv
    simp only [List.append_assoc] at hr hs ⊢
    rw [bind_run _ _ _ _ _ hr,hs]
  · intro front rest b c h
    obtain ⟨a,c',ha,hb⟩ := bind_ok _ _ _ _ h
    obtain ⟨u,back,rfl,rfl,hu⟩ := hx.only _ _ _ _ ha
    rw [← List.append_assoc] at hb
    obtain ⟨v,back',rfl,rfl,hv⟩ := (hf a).only _ _ _ _ hb
    exact ⟨u++v,back',by simp only [List.append_assoc],by simp only [List.append_assoc],
      a,u,v,rfl,hu,hv⟩
  · intro front b s t hw ht
    obtain ⟨a,u,v,hw,hu,hv⟩ := hw
    rcases cut_append u v s t hw.symm with ⟨d,hd,rfl⟩ | ⟨d,rfl,rfl⟩
    · exact bind_fail _ _ _ _ (hx.short front a s d hu hd)
    · have hr := hx.reads front a u d hu
      have hs := (hf a).short (front++u) b d t hv ht
      rw [List.append_assoc] at hs
      rw [bind_run _ _ _ _ _ hr,hs]

theorem Codes.congr {x : Parser α} {R S : Format α} (h : Codes x R)
    (hRS : ∀front a w,R front a w ↔ S front a w) : Codes x S := by
  have he : R=S := by
    funext front a w
    exact propext (hRS front a w)
  exact he ▸ h

theorem Codes.pure (a : α) : Codes (Pure.pure a) (fun _ b w => b=a ∧ w=[]) := by
  refine ⟨?_,?_,?_⟩
  · intro front _ _ rest hw
    obtain ⟨rfl,rfl⟩ := hw
    rw [List.append_nil]
    rfl
  · intro front rest b c h
    cases h
    exact ⟨[],rest,rfl,by rw [List.append_nil],rfl,rfl⟩
  · intro front b s t hw ht
    obtain ⟨_,h⟩ := hw
    exact absurd (List.append_eq_nil_iff.mp h).2 ht

/-- Two words of one format that begin one string are the same word, with the same value. -/
theorem Codes.unique {x : Parser α} {R : Format α} (hx : Codes x R) (front : Bytes) (a b : α)
    (u v s t : Bytes) (hu : R front a u) (hv : R front b v) (h : u++s=v++t) : a=b ∧ u=v := by
  have ha := hx.reads front a u s hu
  have hb := hx.reads front b v t hv
  rw [h] at ha
  rw [ha] at hb
  obtain ⟨rfl,hc⟩ := Prod.mk.inj (Except.ok.inj hb)
  have hl := (Cursor.mk.inj hc).2
  rw [List.length_append,List.length_append] at hl
  exact ⟨rfl,(List.append_inj h (by omega)).1⟩

end Steps

section Layout

variable {α β : Type}

/-- A parser whose words depend on their values alone. -/
abbrev Lays (x : Parser α) (P : α → Prop) (word : α → Bytes) : Prop :=
  Codes x (fun _ a w => P a ∧ w=word a)

/-- A field that the value of the whole parser keeps. -/
theorem Lays.field {x : Parser α} {P : α → Prop} {word : α → Bytes} (get : β → α) {f : α → Parser β}
    {C : β → Prop} {Q : α → β → Prop} {back : α → β → Bytes} (hx : Lays x P word)
    (hf : ∀a,Codes (f a) (fun _ b w => (C b ∧ get b=a) ∧ Q a b ∧ w=back a b)) :
    Codes (x>>=f) (fun _ b w => C b ∧ (P (get b) ∧ Q (get b) b) ∧ w=word (get b)++back (get b) b) := by
  refine (hx.bind hf).congr ?_
  intro front b w
  constructor
  · intro hw
    obtain ⟨_,_,_,rfl,⟨hP,rfl⟩,⟨hC,rfl⟩,hQ,rfl⟩ := hw
    exact ⟨hC,⟨hP,hQ⟩,rfl⟩
  · intro hw
    obtain ⟨hC,⟨hP,hQ⟩,rfl⟩ := hw
    exact ⟨get b,_,_,rfl,⟨hP,rfl⟩,⟨hC,rfl⟩,hQ,rfl⟩

/-- A test between two fields. -/
theorem Codes.test {x : Parser Unit} {T : Prop} {f : Unit → Parser β} {C Q : β → Prop} {back : β → Bytes}
    (hx : Codes x (fun _ _ w => T ∧ w=[])) (hf : ∀u,Codes (f u) (fun _ b w => C b ∧ Q b ∧ w=back b)) :
    Codes (x>>=f) (fun _ b w => C b ∧ (T ∧ Q b) ∧ w=back b) := by
  refine (hx.bind hf).congr ?_
  intro front b w
  constructor
  · intro hw
    obtain ⟨_,_,_,rfl,⟨hT,rfl⟩,hC,hQ,rfl⟩ := hw
    exact ⟨hC,⟨hT,hQ⟩,rfl⟩
  · intro hw
    obtain ⟨hC,⟨hT,hQ⟩,rfl⟩ := hw
    exact ⟨(),[],_,rfl,⟨hT,rfl⟩,hC,hQ,rfl⟩

/-- The value a parser returns, described by its fields. -/
theorem Codes.value (a : α) (C Q : α → Prop) (h : ∀b,b=a ↔ C b ∧ Q b) :
    Codes (Pure.pure a) (fun _ b w => C b ∧ Q b ∧ w=[]) := by
  refine (Codes.pure a).congr ?_
  intro front b w
  rw [h b,and_assoc]

/-- The fields read one after another are the conditions and the word of the whole value. -/
theorem Codes.layout {x : Parser α} {Q P : α → Prop} {back word : α → Bytes}
    (hx : Codes x (fun _ b w => True ∧ Q b ∧ w=back b)) (hQ : ∀b,Q b ↔ P b) (hword : ∀b,back b=word b) :
    Lays x P word := by
  refine hx.congr ?_
  intro front b w
  rw [hQ b,hword b,true_and]

/-- A word of such a parser stands for one value. -/
theorem Lays.inj {x : Parser α} {P : α → Prop} {word : α → Bytes} (hx : Lays x P word) (a b : α) (ha : P a)
    (hb : P b) (h : word a=word b) : a=b :=
  (Codes.unique hx [] a b (word a) (word b) [] [] ⟨ha,rfl⟩ ⟨hb,rfl⟩ (by rw [h])).1

end Layout

section Fields

theorem need_run (n : Nat) (front rest : Bytes) (h : n ≤ rest.length) :
    need n ⟨front++rest,front.length⟩=.ok ((),⟨front++rest,front.length⟩) := by
  rw [need,if_pos (by rw [List.length_append]; exact Nat.add_le_add_left h _)]

theorem need_short (n : Nat) (front rest : Bytes) (h : rest.length < n) :
    need n ⟨front++rest,front.length⟩=.error .Truncated := by
  have hn : ¬front.length+n ≤ (front++rest).length := by
    rw [List.length_append]
    omega
  rw [need,if_neg hn]

theorem take_run (n : Nat) (front w rest : Bytes) (h : w.length=n) :
    take n ⟨front++(w++rest),front.length⟩=.ok (w,⟨front++(w++rest),(front++w).length⟩) := by
  rw [take,bind_run _ _ _ _ _ (need_run n front (w++rest) (by rw [List.length_append]; omega))]
  have hw : ((front++(w++rest)).drop front.length).take n=w := by
    rw [List.drop_left,List.take_left' h]
  change Except.ok (((front++(w++rest)).drop front.length).take n,
    (⟨front++(w++rest),front.length+n⟩ : Cursor))=_
  rw [hw,List.length_append,h]

theorem codes_take (n : Nat) : Lays (take n) (fun a => a.length=n) (fun a => a) := by
  refine ⟨?_,?_,?_⟩
  · intro front a w rest hw
    obtain ⟨h,hw⟩ := hw
    rw [hw]
    exact take_run n front a rest h
  · intro front rest a c h
    by_cases hn : n ≤ rest.length
    · have hlen : (rest.take n).length=n := List.length_take_of_le hn
      have hr := take_run n front (rest.take n) (rest.drop n) hlen
      rw [List.take_append_drop,h] at hr
      cases hr
      exact ⟨rest.take n,rest.drop n,(List.take_append_drop n rest).symm,rfl,hlen,rfl⟩
    · obtain ⟨_,_,hneed,_⟩ := bind_ok _ _ _ _ h
      rw [need_short n front rest (Nat.lt_of_not_le hn)] at hneed
      cases hneed
  · intro front a s t hw ht
    obtain ⟨h,ha⟩ := hw
    have hpos := List.length_pos_of_ne_nil ht
    rw [← show s++t=a from ha,List.length_append] at h
    exact bind_fail _ _ _ _ (need_short n front s (by omega))

/-- A field of `n` bytes that is read as a value of another type. -/
theorem codes_map {α : Type} (n : Nat) (of : Bytes → α) (put : α → Bytes) (hput : ∀a,(put a).length=n)
    (hof : ∀a,of (put a)=a) (hback : ∀w,w.length=n → put (of w)=w) :
    Lays (do return of (← take n)) (fun _ => True) put := by
  refine ((codes_take n).bind (fun w => Codes.pure (of w))).congr ?_
  intro front a w
  constructor
  · intro hw
    obtain ⟨b,u,v,rfl,⟨hb,rfl⟩,rfl,rfl⟩ := hw
    exact ⟨trivial,by rw [List.append_nil,hback _ hb]⟩
  · intro hw
    obtain ⟨_,rfl⟩ := hw
    exact ⟨put a,put a,[],by rw [List.append_nil],⟨hput a,rfl⟩,(hof a).symm,rfl⟩

theorem codes_u8r : Lays u8r (fun _ => True) (fun a => [a]) := by
  refine codes_map 1 (fun w => w.headD 0) (fun a => [a]) (fun _ => rfl) (fun _ => rfl) ?_
  intro w h
  obtain ⟨a,rfl⟩ := List.length_eq_one_iff.mp h
  rfl

theorem codes_u16be : Lays u16be (fun _ => True) (fun a => beBytes 2 a.toNat) := by
  refine codes_map 2 (fun w => UInt16.ofNat (beNat w)) (fun a => beBytes 2 a.toNat)
    (fun _ => beBytes_length 2 _) ?_ ?_
  · intro a
    apply UInt16.toNat.inj
    have ha := a.toNat_lt
    rw [beNat_beBytes,UInt16.toNat_ofNat']
    omega
  · intro w h
    have hlt := beNat_lt w
    rw [h] at hlt
    rw [UInt16.toNat_ofNat',Nat.mod_eq_of_lt (by omega),← h,beBytes_beNat]

theorem codes_u32be : Lays u32be (fun _ => True) (fun a => beBytes 4 a.toNat) := by
  refine codes_map 4 (fun w => UInt32.ofNat (beNat w)) (fun a => beBytes 4 a.toNat)
    (fun _ => beBytes_length 4 _) ?_ ?_
  · intro a
    apply UInt32.toNat.inj
    have ha := a.toNat_lt
    rw [beNat_beBytes,UInt32.toNat_ofNat']
    omega
  · intro w h
    have hlt := beNat_lt w
    rw [h] at hlt
    rw [UInt32.toNat_ofNat',Nat.mod_eq_of_lt (by omega),← h,beBytes_beNat]

theorem codes_u64be : Lays u64be (fun _ => True) put64 :=
  codes_map 8 be64 put64 put64_length be64_put64 put64_be64

/-- A test in a parser reads no byte. -/
theorem codes_check (b : Prop) [Decidable b] (e : ParseError) :
    Codes (if b then throw e else pure ()) (fun _ _ w => ¬b ∧ w=[]) := by
  by_cases hb : b
  · rw [if_pos hb]
    refine ⟨?_,?_,?_⟩
    · intro front a w rest hw
      obtain ⟨h,_⟩ := hw
      exact absurd hb h
    · intro front rest a c h
      cases h
    · intro front a s t hw _
      obtain ⟨h,_⟩ := hw
      exact absurd hb h
  · rw [if_neg hb]
    exact (Codes.pure ()).congr (fun front a w => ⟨fun h => ⟨hb,h.2⟩,fun h => ⟨rfl,h.2⟩⟩)

theorem codes_oversize (b : Bool) : Codes (oversize b) (fun _ _ w => ¬b=true ∧ w=[]) := by
  have he : oversize b=if b=true then throw .Oversize else pure () := by
    cases b <;> rfl
  rw [he]
  exact codes_check _ _

theorem codes_consumed : Codes consumed (fun front a w => a=front ∧ w=[]) := by
  refine ⟨?_,?_,?_⟩
  · intro front a w rest hw
    obtain ⟨ha,rfl⟩ := hw
    change Except.ok ((front++([]++rest)).take front.length,(⟨front++([]++rest),front.length⟩ : Cursor))=_
    rw [List.take_left' rfl,List.append_nil,ha]
  · intro front rest a c h
    cases h
    exact ⟨[],rest,rfl,by rw [List.append_nil],List.take_left' rfl,rfl⟩
  · intro front a s t hw ht
    obtain ⟨_,h⟩ := hw
    exact absurd (List.append_eq_nil_iff.mp h).2 ht

/-- The bytes a parser reads, as they stand in the buffer. -/
def spanned (x : Parser Unit) : Parser Bytes := do
  let start ← get
  x
  let fin ← get
  return (fin.buf.take fin.pos).drop start.pos

theorem codes_spanned (x : Parser Unit) (R : Format Unit) (hx : Codes x R) :
    Codes (spanned x) (fun front a w => R front () w ∧ a=w) := by
  have hspan : ∀front w rest : Bytes,
      ((front++(w++rest)).take (front++w).length).drop front.length=w := by
    intro front w rest
    rw [← List.append_assoc,List.take_left,List.drop_left]
  refine ⟨?_,?_,?_⟩
  · intro front a w rest hw
    obtain ⟨h,rfl⟩ := hw
    have hr := hx.reads front () a rest h
    have he := bind_run x (fun _ => do let fin ← get; return (fin.buf.take fin.pos).drop front.length) _ _ _ hr
    refine he.trans ?_
    change Except.ok (((front++(a++rest)).take (front++a).length).drop front.length,_)=_
    rw [hspan]
  · intro front rest a c h
    obtain ⟨_,_,hg,h⟩ := bind_ok _ _ _ _ h
    cases hg
    obtain ⟨_,_,hr,h⟩ := bind_ok _ _ _ _ h
    obtain ⟨w,back,rfl,rfl,hw⟩ := hx.only _ _ _ _ hr
    cases h
    exact ⟨w,back,rfl,rfl,hw,hspan front w back⟩
  · intro front a s t hw ht
    obtain ⟨h,_⟩ := hw
    exact (bind_run get _ _ _ _ rfl).trans (bind_fail _ _ _ _ (hx.short front () s t h ht))

theorem codes_field16 (max : Nat) (hmax : max < 2^16) :
    Lays (field16 max) (fun a => a.length ≤ max) pushField16 := by
  refine (codes_u16be.bind (fun len => (codes_oversize _).bind (fun _ => codes_take len.toNat))).congr ?_
  intro front a w
  constructor
  · intro hw
    obtain ⟨len,_,_,rfl,⟨_,rfl⟩,_,_,_,rfl,⟨hle,rfl⟩,hlen,rfl⟩ := hw
    rw [decide_eq_true_iff] at hle
    rw [pushField16,hlen]
    exact ⟨by omega,rfl⟩
  · intro hw
    obtain ⟨hle,rfl⟩ := hw
    have hlen : (UInt16.ofNat a.length).toNat=a.length := by
      rw [UInt16.toNat_ofNat',Nat.mod_eq_of_lt (by omega)]
    have hword : beBytes 2 a.length=beBytes 2 (UInt16.ofNat a.length).toNat := by rw [hlen]
    refine ⟨UInt16.ofNat a.length,_,a,rfl,⟨trivial,hword⟩,(),[],a,rfl,⟨?_,rfl⟩,hlen.symm,rfl⟩
    rw [decide_eq_true_iff]
    omega

theorem codes_field32 (max : Nat) (hmax : max < 2^32) :
    Lays (field32 max) (fun a => a.length ≤ max) pushField32 := by
  refine (codes_u32be.bind (fun len => (codes_oversize _).bind (fun _ => codes_take len.toNat))).congr ?_
  intro front a w
  constructor
  · intro hw
    obtain ⟨len,_,_,rfl,⟨_,rfl⟩,_,_,_,rfl,⟨hle,rfl⟩,hlen,rfl⟩ := hw
    rw [decide_eq_true_iff] at hle
    rw [pushField32,hlen]
    exact ⟨by omega,rfl⟩
  · intro hw
    obtain ⟨hle,rfl⟩ := hw
    have hlen : (UInt32.ofNat a.length).toNat=a.length := by
      rw [UInt32.toNat_ofNat',Nat.mod_eq_of_lt (by omega)]
    have hword : beBytes 4 a.length=beBytes 4 (UInt32.ofNat a.length).toNat := by rw [hlen]
    refine ⟨UInt32.ofNat a.length,_,a,rfl,⟨trivial,hword⟩,(),[],a,rfl,⟨?_,rfl⟩,hlen.symm,rfl⟩
    rw [decide_eq_true_iff]
    omega

end Fields

section Oversize

variable {α β : Type}

/-- The parser answers Oversize as soon as it has read `w`, whatever follows. -/
def Over (x : Parser α) (front w : Bytes) : Prop :=
  ∀rest,x ⟨front++(w++rest),front.length⟩=.error .Oversize

theorem Over.here (x : Parser α) (f : α → Parser β) (front w : Bytes) (h : Over x front w) :
    Over (x>>=f) front w := fun rest => bind_fail _ _ _ _ (h rest)

theorem Over.later {x : Parser α} {R : Format α} (f : α → Parser β) (hx : Codes x R) (front : Bytes) (a : α)
    (u v : Bytes) (hu : R front a u) (h : Over (f a) (front++u) v) : Over (x>>=f) front (u++v) := by
  intro rest
  have hr := hx.reads front a u (v++rest) hu
  have ho := h rest
  simp only [List.append_assoc] at hr ho ⊢
  rw [bind_run _ _ _ _ _ hr,ho]

theorem Over.past {x : Parser α} {P : α → Prop} {word : α → Bytes} {f : α → Parser β} (hx : Lays x P word)
    (front : Bytes) (a : α) (v : Bytes) (ha : P a) (h : Over (f a) (front++word a) v) :
    Over (x>>=f) front (word a++v) := .later f hx front a (word a) v ⟨ha,rfl⟩ h

theorem Over.test {x : Parser Unit} {T : Prop} {f : Unit → Parser β} (hx : Codes x (fun _ _ w => T ∧ w=[]))
    (front v : Bytes) (hT : T) (h : Over (f ()) front v) : Over (x>>=f) front v := by
  have hl := Over.later f hx front () [] v ⟨hT,rfl⟩ (by rwa [List.append_nil])
  rwa [List.nil_append] at hl

/-- A count over its bound. -/
theorem over_count (max n : UInt8) (f : UInt8 → Parser α) (front : Bytes) (h : max < n) :
    Over (do let n ← u8r; oversize (max < n); f n) front [n] := by
  rw [← List.append_nil [n]]
  refine .later _ codes_u8r front n [n] [] ⟨trivial,rfl⟩ (.here _ _ _ _ ?_)
  intro rest
  rw [decide_eq_true h]
  rfl

/-- A length over its bound. -/
theorem over_length32 (max : Nat) (q : Bytes) (f : UInt32 → Parser α) (front : Bytes) (hq : q.length=4)
    (h : max < beNat q) : Over (do let n ← u32be; oversize (max < n.toNat); f n) front q := by
  have hlt := beNat_lt q
  rw [hq] at hlt
  have hn : (UInt32.ofNat (beNat q)).toNat=beNat q := by
    rw [UInt32.toNat_ofNat',Nat.mod_eq_of_lt (by omega)]
  have hword : q=beBytes 4 (UInt32.ofNat (beNat q)).toNat := by
    rw [hn,← hq,beBytes_beNat]
  rw [← List.append_nil q]
  refine .later _ codes_u32be front (UInt32.ofNat (beNat q)) q [] ⟨trivial,hword⟩ (.here _ _ _ _ ?_)
  intro rest
  rw [hn,decide_eq_true h]
  rfl

theorem over_field16 (max : Nat) (q front : Bytes) (hq : q.length=2) (h : max < beNat q) :
    Over (field16 max) front q := by
  have hlt := beNat_lt q
  rw [hq] at hlt
  have hn : (UInt16.ofNat (beNat q)).toNat=beNat q := by
    rw [UInt16.toNat_ofNat',Nat.mod_eq_of_lt (by omega)]
  have hword : q=beBytes 2 (UInt16.ofNat (beNat q)).toNat := by
    rw [hn,← hq,beBytes_beNat]
  rw [← List.append_nil q]
  refine .later _ codes_u16be front (UInt16.ofNat (beNat q)) q [] ⟨trivial,hword⟩ (.here _ _ _ _ ?_)
  intro rest
  rw [hn,decide_eq_true h]
  rfl

theorem over_field32 (max : Nat) (q front : Bytes) (hq : q.length=4) (h : max < beNat q) :
    Over (field32 max) front q := over_length32 max q (fun n => take n.toNat) front hq h

end Oversize

section Messages

variable {α : Type}

/-- One message is the whole of a buffer. -/
def message (x : Parser α) (buf : Bytes) : Except ParseError α :=
  (do let a ← x; finish; return a : Parser α).run' ⟨buf,0⟩

theorem run'_eq (x : Parser α) (c : Cursor) : x.run' c=(x c).map Prod.fst := by
  rw [StateT.run']
  cases x c <;> rfl

theorem message_of_fail (x : Parser α) (buf : Bytes) (e : ParseError) (h : x ⟨buf,0⟩=.error e) :
    message x buf=.error e := by
  rw [message,run'_eq,bind_fail _ _ _ _ h]
  rfl

/-- Past the message's own bytes only the end of the buffer may stand. -/
theorem message_of_read (x : Parser α) (buf : Bytes) (a : α) (n : Nat) (h : x ⟨buf,0⟩=.ok (a,⟨buf,n⟩)) :
    message x buf=if buf.drop n=[] then .ok a else .error .TrailingBytes := by
  rw [message,run'_eq,bind_run _ _ _ _ _ h]
  by_cases hd : buf.drop n=[]
  · have hf : finish ⟨buf,n⟩=.ok ((),⟨buf,n⟩) := if_pos hd
    rw [bind_run _ _ _ _ _ hf,if_pos hd]
    rfl
  · have hf : finish ⟨buf,n⟩=.error .TrailingBytes := if_neg hd
    rw [bind_fail _ _ _ _ hf,if_neg hd]
    rfl

variable {x : Parser α} {R : Format α}

theorem Codes.message_iff (hx : Codes x R) (w : Bytes) (a : α) : message x w=.ok a ↔ R [] a w := by
  constructor
  · intro h
    cases hr : x ⟨w,0⟩ with
    | error e =>
      rw [message_of_fail _ _ _ hr] at h
      cases h
    | ok ac =>
      obtain ⟨b,c⟩ := ac
      obtain ⟨u,back,rfl,rfl,hu⟩ := hx.only [] w b c hr
      rw [message_of_read x (u++back) b u.length hr,List.drop_left] at h
      split_ifs at h with hb
      cases h
      rw [hb,List.append_nil]
      exact hu
  · intro h
    have hr := hx.reads [] a w [] h
    simp only [List.append_nil,List.nil_append,List.length_nil] at hr
    rw [message_of_read x w a w.length hr,if_pos (List.drop_length)]

theorem Codes.message_short (hx : Codes x R) (a : α) (v t : Bytes) (h : R [] a (v++t)) (ht : t≠[]) :
    message x v=.error .Truncated :=
  message_of_fail _ _ _ (hx.short [] a v t h ht)

theorem Codes.message_trailing (hx : Codes x R) (a : α) (w t : Bytes) (h : R [] a w) (ht : t≠[]) :
    message x (w++t)=.error .TrailingBytes := by
  have hr := hx.reads [] a w t h
  simp only [List.nil_append,List.length_nil] at hr
  rw [message_of_read x (w++t) a w.length hr,List.drop_left,if_neg ht]

theorem message_over (q rest : Bytes) (h : Over x [] q) : message x (q++rest)=.error .Oversize :=
  message_of_fail _ _ _ (h rest)

end Messages

end Bolina.Codec
