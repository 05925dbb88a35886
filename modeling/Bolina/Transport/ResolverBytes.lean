import Bolina.Framework.SelfDelimiting
import Bolina.Transport.ResolverSet

namespace Bolina.Checked

open BigEndian Panic Transport

section Serialize

variable (r : Resolver)

/-- The length so far, with the entry at index `i` and its aliases. -/
def addEntryLen (n i : Nat) : Option Nat := do
  let (_,len) ← entryAt r i
  return (← aliases r).foldl (fun n a => if a.entry=i then n+(2+a.bytes.length) else n) (n+(2+len+2))

def serializedLen : Option Nat := (List.range r.entries.length).foldlM (addEntryLen r) 0

/-- What has been written so far, and how far. -/
structure Written where
  out : Bytes
  pos : Nat

/-- The next bytes of the output. -/
def Written.put (s : Written) (bs : Bytes) : Option Written := do
  let out ← copyTo s.out bs s.pos (s.pos+bs.length)
  return ⟨out,s.pos+bs.length⟩

def writeAliases (i : Nat) : List Alias → Written → Option Written
  | [],s => some s
  | a::rest,s => do
    if a.entry≠i then writeAliases i rest s
    else
      let s ← s.put (beBytes 2 a.bytes.length)
      let s ← s.put (← range (fixed idMax a.bytes).toList 0 a.bytes.length)
      writeAliases i rest s

def writeEntries : List Nat → Written → Option Written
  | [],s => some s
  | i::rest,s => do
    let (canonical,len) ← entryAt r i
    let s ← s.put (beBytes 2 len)
    let s ← s.put (← range canonical 0 len)
    let nAlias := (← aliases r).countP (fun a => a.entry==i)
    let s ← s.put (beBytes 2 nAlias)
    let s ← writeAliases i (← aliases r) s
    writeEntries rest s

def serialize (out : Bytes) : Option (Except ResolveError Nat × Bytes) := do
  if out.length < (← serializedLen r) then return (.error .BufferTooSmall,out)
  else
    let s ← writeEntries r (List.range r.entries.length) ⟨out,0⟩
    return (.ok s.pos,s.out)

end Serialize

end Bolina.Checked

namespace Bolina.Transport

open BigEndian Panic SelfDelimiting
open Checked (Fits maxAliases Written)

/-- The aliases of the entry at index `i`, out of a list. -/
def named (i : Nat) (as : List Alias) : List Bytes := (as.filter (fun a => a.entry==i)).map Alias.bytes

def Resolver.aliasesOf (r : Resolver) (i : Nat) : List Bytes := named i r.aliases

/-- The canonical ids in the order of declaration, each with its aliases. -/
def Resolver.declared (r : Resolver) : List (Bytes × List Bytes) :=
  r.entries.zipIdx.map (fun p => (p.1,r.aliasesOf p.2))

/-- The record of an id and its aliases. -/
def record (d : Bytes × List Bytes) : Bytes := prefixed 2 d.1++counted 2 (prefixed 2) d.2

def Resolver.image (r : Resolver) : Bytes := r.declared.flatMap record

section Writes

variable {r : Resolver}

/-- The state after `bs` has been written over the front of `out`. -/
def wrote (out bs : Bytes) : Written := ⟨bs++out.drop bs.length,bs.length⟩

/-- Where the buffer has room a write puts its bytes behind the others. -/
theorem put_wrote {out bs cs : Bytes} (h : (bs++cs).length ≤ out.length) :
    (wrote out bs).put cs=some (wrote out (bs++cs)) := by
  rw [List.length_append] at h
  have hroom : cs.length ≤ (out.drop bs.length).length := by
    rw [List.length_drop]
    omega
  rw [Written.put,wrote]
  simp only [copyTo_next bs (out.drop bs.length) rfl rfl hroom,Option.bind_eq_bind,Option.bind_some]
  rw [wrote,List.drop_drop,List.length_append]
  rfl

theorem range_buffer {bs : Bytes} (h : bs.length ≤ idMax) : range (fixed idMax bs).toList 0 bs.length=some bs :=
  Checked.buffer_eq h

theorem writeAliases_eq (i : Nat) (as : List Alias) (ha : ∀a∈as,a.bytes.length ≤ idMax) (out bs : Bytes)
    (h : (bs++(named i as).flatMap (prefixed 2)).length ≤ out.length) :
    Checked.writeAliases i as (wrote out bs)=some (wrote out (bs++(named i as).flatMap (prefixed 2))) := by
  induction as generalizing bs with
  | nil => simp [Checked.writeAliases,named]
  | cons a as ih =>
    obtain ⟨hfit,hrest⟩ := List.forall_mem_cons.mp ha
    rw [Checked.writeAliases]
    by_cases hi : a.entry=i
    · have hnamed : named i (a::as)=a.bytes::named i as := by
        rw [named,List.filter_cons_of_pos (by simp [hi])]
        rfl
      have hword : bs++(named i (a::as)).flatMap (prefixed 2)=
          (bs++beBytes 2 a.bytes.length)++a.bytes++(named i as).flatMap (prefixed 2) := by
        rw [hnamed,List.flatMap_cons,prefixed]
        simp only [List.append_assoc]
      rw [hword] at h ⊢
      have hlen := h
      rw [List.length_append] at hlen
      rw [if_neg (not_not.mpr hi),put_wrote (by rw [List.length_append] at hlen; omega)]
      simp only [range_buffer hfit,Option.bind_eq_bind,Option.bind_some]
      rw [put_wrote (by omega)]
      exact ih hrest _ h
    · have hnamed : named i (a::as)=named i as := by
        rw [named,List.filter_cons_of_neg (by simp [hi])]
        rfl
      rw [if_pos hi]
      rw [hnamed] at h ⊢
      exact ih hrest bs h

/-- The entries at the indices of `cs`, each with its aliases. -/
def Resolver.declaredAt (r : Resolver) (cs : List (Bytes × Nat)) : List (Bytes × List Bytes) :=
  cs.map (fun p => (p.1,r.aliasesOf p.2))

theorem writeEntries_eq (hf : Fits r) (cs : List (Bytes × Nat)) (hcs : ∀p∈cs,r.entries[p.2]?=some p.1)
    (out bs : Bytes) (h : (bs++(r.declaredAt cs).flatMap record).length ≤ out.length) :
    Checked.writeEntries r (cs.map Prod.snd) (wrote out bs)=
      some (wrote out (bs++(r.declaredAt cs).flatMap record)) := by
  induction cs generalizing bs with
  | nil => simp [Checked.writeEntries,Resolver.declaredAt]
  | cons p cs ih =>
    obtain ⟨c,i⟩ := p
    have hi : r.entries[i]?=some c := hcs (c,i) List.mem_cons_self
    have hfit := (hf.entries c (List.mem_of_getElem? hi)).2
    have halias : Checked.aliases r=some r.aliases := if_pos hf.aliasCount
    have hcount : r.aliases.countP (fun a => a.entry==i)=(r.aliasesOf i).length := by
      rw [Resolver.aliasesOf,named,List.length_map,List.countP_eq_length_filter]
    have hword : bs++(r.declaredAt ((c,i)::cs)).flatMap record=
        (bs++beBytes 2 c.length)++c++beBytes 2 (r.aliasesOf i).length++(r.aliasesOf i).flatMap (prefixed 2)++
          (r.declaredAt cs).flatMap record := by
      rw [Resolver.declaredAt,List.map_cons,List.flatMap_cons,record,prefixed,counted]
      simp only [Resolver.declaredAt,List.append_assoc]
    rw [hword] at h ⊢
    have hlen := h
    simp only [List.length_append] at hlen
    rw [List.map_cons,Checked.writeEntries,Checked.entryAt_eq hf hi]
    simp only [Option.bind_eq_bind,Option.bind_some]
    rw [put_wrote (by simp only [List.length_append]; omega)]
    simp only [range_buffer hfit,Option.bind_some]
    rw [put_wrote (by simp only [List.length_append]; omega),halias]
    simp only [Option.bind_some,hcount]
    rw [put_wrote (by simp only [List.length_append]; omega)]
    simp only [Option.bind_some]
    have hroom : (bs++beBytes 2 c.length++c++beBytes 2 (r.aliasesOf i).length++
        (r.aliasesOf i).flatMap (prefixed 2)).length ≤ out.length := by
      simp only [List.length_append]
      omega
    have hnamed := writeAliases_eq i r.aliases hf.aliases out _ hroom
    rw [hnamed]
    simp only [Option.bind_some]
    exact ih (fun p hp => hcs p (List.mem_cons_of_mem _ hp)) _ h

theorem aliasesLen_eq (i : Nat) (as : List Alias) (n : Nat) :
    as.foldl (fun n a => if a.entry=i then n+(2+a.bytes.length) else n) n=
      n+((named i as).flatMap (prefixed 2)).length := by
  induction as generalizing n with
  | nil => rfl
  | cons a as ih =>
    rw [List.foldl_cons,ih]
    by_cases hi : a.entry=i
    · have hnamed : named i (a::as)=a.bytes::named i as := by
        rw [named,List.filter_cons_of_pos (by simp [hi])]
        rfl
      rw [if_pos hi,hnamed,List.flatMap_cons,List.length_append,prefixed,List.length_append,beBytes_length]
      omega
    · have hnamed : named i (a::as)=named i as := by
        rw [named,List.filter_cons_of_neg (by simp [hi])]
        rfl
      rw [if_neg hi,hnamed]

theorem record_length (c : Bytes) (as : List Bytes) :
    (record (c,as)).length=2+c.length+2+(as.flatMap (prefixed 2)).length := by
  simp only [record,prefixed,counted,List.length_append,beBytes_length]
  omega

theorem addEntryLen_eq (hf : Fits r) {i : Nat} {c : Bytes} (hi : r.entries[i]?=some c) (n : Nat) :
    Checked.addEntryLen r n i=some (n+(record (c,r.aliasesOf i)).length) := by
  have halias : Checked.aliases r=some r.aliases := if_pos hf.aliasCount
  have hl := record_length c (r.aliasesOf i)
  rw [Resolver.aliasesOf] at hl
  rw [Checked.addEntryLen,Checked.entryAt_eq hf hi,halias]
  simp only [Option.bind_eq_bind,Option.bind_some,aliasesLen_eq,pure,Option.some.injEq,Resolver.aliasesOf]
  omega

/-- The length is that of the records. -/
theorem serializedLen_eq (hf : Fits r) : Checked.serializedLen r=some r.image.length := by
  have hloop : ∀(cs : List (Bytes × Nat)) (n : Nat),(∀p∈cs,r.entries[p.2]?=some p.1) →
      (cs.map Prod.snd).foldlM (Checked.addEntryLen r) n=some (n+((r.declaredAt cs).flatMap record).length) := by
    intro cs
    induction cs with
    | nil => exact fun n _ => rfl
    | cons p cs ih =>
      intro n hcs
      obtain ⟨c,i⟩ := p
      have hi : r.entries[i]?=some c := hcs (c,i) List.mem_cons_self
      have hlen : (record (c,r.aliasesOf i)).length+((r.declaredAt cs).flatMap record).length=
          ((r.declaredAt ((c,i)::cs)).flatMap record).length := by
        rw [Resolver.declaredAt,Resolver.declaredAt,List.map_cons,List.flatMap_cons,List.length_append]
      rw [List.map_cons,List.foldlM_cons,addEntryLen_eq hf hi,← hlen,← Nat.add_assoc]
      exact ih _ (fun p hp => hcs p (List.mem_cons_of_mem _ hp))
  have hall := hloop r.entries.zipIdx 0 (fun p hp => List.mem_zipIdx_iff_getElem?.mp hp)
  rw [List.zipIdx_map_snd,← List.range_eq_range',Nat.zero_add] at hall
  exact hall

/-- A buffer with room takes the image at its front; a shorter one is refused as it is. -/
theorem serialize_eq (hf : Fits r) (out : Bytes) : Checked.serialize r out=
    if out.length < r.image.length then some (.error .BufferTooSmall,out)
    else some (.ok r.image.length,r.image++out.drop r.image.length) := by
  rw [Checked.serialize,serializedLen_eq hf]
  simp only [Option.bind_eq_bind,Option.bind_some]
  by_cases h : out.length < r.image.length
  · rw [if_pos h,if_pos h]
    rfl
  · rw [if_neg h,if_neg h]
    have hall := writeEntries_eq hf r.entries.zipIdx (fun p hp => List.mem_zipIdx_iff_getElem?.mp hp) out []
      (Nat.not_lt.mp h)
    rw [List.zipIdx_map_snd,← List.range_eq_range'] at hall
    have hstart : (⟨out,0⟩ : Written)=wrote out [] := rfl
    rw [hstart,hall]
    rfl

theorem written_image (hf : Fits r) {out o : Bytes} {n : Nat} (h : Checked.serialize r out=some (.ok n,o)) :
    o.take n=r.image := by
  rw [serialize_eq hf] at h
  by_cases hl : out.length < r.image.length
  · rw [if_pos hl] at h
    cases h
  · rw [if_neg hl] at h
    cases h
    exact List.take_left' rfl

end Writes

section Injective

/-- A declaration within the bounds of the resolver. -/
def Small (d : Bytes × List Bytes) : Prop := d.1.length < 256^2 ∧ d.2.length < 256^2 ∧ ∀a∈d.2,a.length < 256^2

theorem delimits_record : Delimits Small record :=
  (delimits_prefixed 2).pair ((delimits_prefixed 2).counted 2)

theorem small_declared {r : Resolver} (hf : Fits r) : ∀d∈r.declared,Small d := by
  intro d hd
  obtain ⟨p,hp,rfl⟩ := List.mem_map.mp hd
  have hc := (hf.entries p.1 (List.mem_of_getElem? (List.mem_zipIdx_iff_getElem?.mp hp))).2
  have hid : idMax < 256^2 := by decide
  have hmax : maxAliases < 256^2 := by decide
  refine ⟨hc.trans_lt hid,?_,?_⟩
  · have hle : (r.aliasesOf p.2).length ≤ r.aliases.length := by
      rw [Resolver.aliasesOf,named,List.length_map]
      exact List.length_filter_le _ _
    exact (hle.trans hf.aliasCount).trans_lt hmax
  · intro a ha
    obtain ⟨x,hx,rfl⟩ := List.mem_map.mp ha
    exact (hf.aliases x (List.mem_filter.mp hx).1).trans_lt hid

theorem record_ne_nil (d : Bytes × List Bytes) : record d≠[] := by
  intro h
  have hl := congrArg List.length h
  rw [record_length,List.length_nil] at hl
  omega

theorem declared_of_image {r r' : Resolver} (hf : Fits r) (hf' : Fits r') (h : r.image=r'.image) :
    r.declared=r'.declared :=
  delimits_record.flatMap_inj (fun d _ => record_ne_nil d) (small_declared hf) (small_declared hf') h

theorem declared_entries (r : Resolver) : r.declared.map Prod.fst=r.entries := by
  rw [Resolver.declared,List.map_map]
  have hfst : (Prod.fst ∘ fun p : Bytes × Nat => (p.1,r.aliasesOf p.2))=Prod.fst := rfl
  rw [hfst,List.zipIdx_map_fst]

theorem declared_getElem (r : Resolver) {i : Nat} {c : Bytes} (hi : r.entries[i]?=some c) :
    r.declared[i]?=some (c,r.aliasesOf i) := by
  rw [Resolver.declared,List.getElem?_map,List.getElem?_zipIdx,hi]
  simp

theorem same_declarations {r r' : Resolver} (h : r.declared=r'.declared) :
    r.entries=r'.entries ∧ ∀i,i < r.entries.length → r.aliasesOf i=r'.aliasesOf i := by
  have he : r.entries=r'.entries := by rw [← declared_entries r,← declared_entries r',h]
  refine ⟨he,fun i hi => ?_⟩
  have hget : r.entries[i]?=some r.entries[i] := List.getElem?_eq_getElem hi
  have hget' : r'.entries[i]?=some r.entries[i] := by rw [← he,hget]
  have hd := declared_getElem r hget
  rw [h,declared_getElem r' hget'] at hd
  exact (Prod.mk.inj (Option.some.inj hd)).2.symm

end Injective

/-- A call that declares. -/
inductive Declaration where
  | add (canonical : Bytes)
  | addAlias (canonical aliasBytes : Bytes)

def Resolver.declare (r : Resolver) : Declaration → Resolver
  | .add canonical => (r.add canonical).2
  | .addAlias canonical aliasBytes => (r.addAlias canonical aliasBytes).2

theorem fits_declare {r : Resolver} (h : Fits r) (d : Declaration) : Fits (r.declare d) := by
  cases d with
  | add canonical => exact h.add canonical
  | addAlias canonical aliasBytes =>
    obtain ⟨e,he⟩ | ⟨idx,hok,_,_,hle,hne⟩ := addAlias_cases r canonical aliasBytes
    · rw [Resolver.declare,he]
      exact h
    · rw [Resolver.declare,hok]
      refine ⟨h.count,h.entries,?_,?_⟩
      · have hcount := h.aliasCount
        rw [List.length_append,List.length_singleton]
        omega
      · intro a ha
        obtain ha | ha := List.mem_append.mp ha
        · exact h.aliases a ha
        · rw [List.mem_singleton.mp ha]
          exact hle

theorem fits_declared (K : Codec.Crypto) (sigPubkey : Bytes) (ds : List Declaration) :
    Fits (ds.foldl Resolver.declare (Resolver.new K sigPubkey)) := by
  have hnew := Checked.fits_new K sigPubkey
  generalize Resolver.new K sigPubkey=r at hnew
  induction ds generalizing r with
  | nil => exact hnew
  | cons d ds ih => exact ih _ (fits_declare hnew d)

/-- The serialization of a declared set fills exactly its length, at the front of any buffer that
holds it, and tells the set. -/
theorem serialize_exact (K : Codec.Crypto) (sigPubkey sigPubkey' : Bytes) (ds ds' : List Declaration) :
    let r := ds.foldl Resolver.declare (Resolver.new K sigPubkey)
    let r' := ds'.foldl Resolver.declare (Resolver.new K sigPubkey')
    (∃n image,Checked.serializedLen r=some n ∧ image.length=n ∧ ∀out,
      Checked.serialize r out=if out.length < n then some (.error .BufferTooSmall,out)
        else some (.ok n,image++out.drop n)) ∧
      ∀out out' n n' o o',Checked.serialize r out=some (.ok n,o) → Checked.serialize r' out'=some (.ok n',o') →
        o.take n=o'.take n' → r.entries=r'.entries ∧ ∀i,i < r.entries.length → r.aliasesOf i=r'.aliasesOf i := by
  intro r r'
  have hf : Fits r := fits_declared K sigPubkey ds
  have hf' : Fits r' := fits_declared K sigPubkey' ds'
  refine ⟨⟨r.image.length,r.image,serializedLen_eq hf,rfl,serialize_eq hf⟩,?_⟩
  intro out out' n n' o o' hs hs' ho
  rw [written_image hf hs,written_image hf' hs'] at ho
  exact same_declarations (declared_of_image hf hf' ho)

end Bolina.Transport
