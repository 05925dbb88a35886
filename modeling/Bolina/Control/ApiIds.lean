import Bolina.Control.RouteHttp
import Bolina.Framework.ByteOffsets
import Bolina.Framework.GuardedRun

namespace Bolina.Control

open Codec Intent Transport GuardedRun ByteOffsets

/-- A call of `post_intent`. -/
structure Post where
  body : List Char
  resolver : Resolver
  nowMs : UInt64

/-- The 32 bytes of the id that a body names. -/
def postedId (body : List Char) : Option (FixedBytes 32) :=
  ((flatJsonGet body idKey).bind parseIdHex).map (fixed 32)

/-- The part of an id that the table keys on. -/
def keyOf (id : FixedBytes 32) : FixedBytes 16 := fixed 16 (id.toList.take lenIntentId)

/-- What posts change, with the ids that were accepted so far, in the order of their entries. -/
structure Api where
  table : Table
  metrics : Metrics
  ring : EventRing
  ids : List (FixedBytes 32)

def Api.new (metrics : Metrics) (ring : EventRing) : Api := ⟨Table.new,metrics,ring,[]⟩

def Api.answer (s : Api) (x : Post) : Except ApiError IntentOutcome :=
  (postIntent x.body x.resolver s.table s.metrics s.ring x.nowMs).1

def Api.post (s : Api) (x : Post) : Api :=
  let r := postIntent x.body x.resolver s.table s.metrics s.ring x.nowMs
  { table := r.2.1
    metrics := r.2.2.1
    ring := r.2.2.2
    ids := match r.1 with
      | .ok .Accepted => s.ids++(postedId x.body).toList
      | _ => s.ids }

/-- The entry was put into the table by a post of the id. -/
def Api.Owns (s : Api) (id : FixedBytes 32) (e : Entry) : Prop := (e,id)∈s.table.entries.zip s.ids

/-- A post of `b` that is answered idempotent is not answered so because of an entry of `a`. -/
def Unblamed (a b : FixedBytes 32) (s : Api) (x : Post) : Prop :=
  postedId x.body=some b → s.answer x=.ok .AcceptedIdempotent → ∀e,s.Owns a e → e.pendingFor (keyOf b)=false

/-- The state that is reported for `b` is not that of an entry of `a`. -/
def Untold (a b : FixedBytes 32) (s : Api) : Prop :=
  ∀e,s.Owns a e → e.intentId=keyOf b → getIntentState b.toList s.table≠.ok (stateName e.state)

/-- A post that is answered idempotent names the very id of a pending entry. -/
def SameId (s : Api) (x : Post) : Prop :=
  s.answer x=.ok .AcceptedIdempotent → ∃id e,postedId x.body=some id ∧ s.Owns id e ∧ e.state=.Pending

/-- A post that the table admits under the id. -/
def Admits (id : FixedBytes 32) (s : Api) (x : Post) : Prop :=
  ∃p canonical,readPosted x.body=some p ∧ postedId x.body=some id ∧
    Admissible x.resolver s.table p.intentId p.resource canonical

/-- A readable post of a resource that resolves meets no other accepted id with the same key. -/
def Distinct (s : Api) (x : Post) : Prop :=
  ∀p canonical id,readPosted x.body=some p → x.resolver.resolve p.resource=.ok canonical →
    canonical.length ≤ maxResource → postedId x.body=some id → ∀a∈s.ids,keyOf a=keyOf id → a=id

section Ids

theorem utf8Size_digit {c : Char} (h : isHexDigit c=true) : c.utf8Size=1 := by
  have hc : c.toNat < 0x80 := by
    simp only [isHexDigit,decide_eq_true_eq] at h
    omega
  rw [Char.utf8Size_eq_one_iff]
  exact UInt32.le_iff_toNat_le.mpr (Nat.le_of_lt_succ hc)

theorem utf8_digits_length {hex : List Char} (h : ∀c∈hex,isHexDigit c=true) : (utf8 hex).length=hex.length := by
  rw [utf8,← size_eq_utf8]
  exact size_eq_length (fun c hc => utf8Size_digit (h c hc))

theorem hexBytes_length (hex : List Char) : (hexBytes hex).length=hex.length/2 := by
  induction hex using hexBytes.induct with
  | case1 hi lo rest ih =>
    rw [hexBytes,List.length_cons,ih,List.length_cons,List.length_cons]
    omega
  | case2 hex hshort =>
    cases hex with
    | nil => rfl
    | cons c hex =>
      cases hex with
      | nil => simp [hexBytes]
      | cons d hex => exact absurd rfl (hshort c d hex)

/-- An id of 64 digits has 32 bytes. -/
theorem parseIdHex_length {hex : List Char} {bs : Bytes} (h : parseIdHex hex=some bs) : bs.length=32 := by
  rw [parseIdHex] at h
  by_cases hbad : (utf8 hex).length≠idHexLen ∨ isHex hex=false
  · rw [if_pos hbad] at h
    cases h
  · rw [if_neg hbad] at h
    cases h
    rw [not_or,not_not,Bool.not_eq_false] at hbad
    obtain ⟨hlen,hhex⟩ := hbad
    rw [isHex,Bool.and_eq_true,List.all_eq_true] at hhex
    rw [utf8_digits_length hhex.2] at hlen
    rw [hexBytes_length,hlen]
    rfl

theorem readPosted_id {body : List Char} {p : Posted} (h : readPosted body=some p) :
    ∃id,postedId body=some id ∧ p.intentId=keyOf id := by
  rw [readPosted] at h
  simp only [Option.bind_eq_bind,Option.bind_eq_some_iff,Option.pure_def,Option.some.injEq] at h
  obtain ⟨_,_,id,hid,_,_,_,_,_,_,_,_,_,_,_,_,bs,hbs,rfl⟩ := h
  refine ⟨fixed 32 bs,?_,?_⟩
  · rw [postedId,hid,Option.bind_some,hbs]
    rfl
  · rw [keyOf,toList_fixed bs (parseIdHex_length hbs)]

end Ids

section Steps

variable {s : Api}

/-- The entries and the ids go in pairs. -/
structure Api.Kept (s : Api) : Prop where
  length : s.table.entries.length=s.ids.length
  owned : ∀id e,s.Owns id e → e.intentId=keyOf id ∧ e.state=.Pending

theorem Api.Kept.owner (h : s.Kept) {e : Entry} (he : e∈s.table.entries) : ∃id∈s.ids,s.Owns id e := by
  obtain ⟨i,hi,rfl⟩ := List.mem_iff_getElem.mp he
  have hi' : i < s.ids.length := h.length ▸ hi
  have hz : i < (s.table.entries.zip s.ids).length := by
    rw [List.length_zip,← h.length,Nat.min_self]
    exact hi
  refine ⟨s.ids[i],List.getElem_mem hi',?_⟩
  have hmem := List.getElem_mem hz
  rwa [List.getElem_zip] at hmem

theorem Api.Kept.entry (h : s.Kept) {id : FixedBytes 32} (hid : id∈s.ids) : ∃e,s.Owns id e := by
  obtain ⟨i,hi,rfl⟩ := List.mem_iff_getElem.mp hid
  have hz : i < (s.table.entries.zip s.ids).length := by
    rw [List.length_zip,h.length,Nat.min_self]
    exact hi
  have hi' : i < s.table.entries.length := h.length.symm ▸ hi
  refine ⟨s.table.entries[i],?_⟩
  have hmem := List.getElem_mem hz
  rwa [List.getElem_zip] at hmem

theorem Api.Owns.entries {id : FixedBytes 32} {e : Entry} (h : s.Owns id e) : e∈s.table.entries :=
  (List.of_mem_zip h).1

theorem Api.Owns.ids {id : FixedBytes 32} {e : Entry} (h : s.Owns id e) : id∈s.ids := (List.of_mem_zip h).2

/-- Entries with one key are one entry, of one id. -/
theorem Api.Kept.unique (h : s.Kept) {a b : FixedBytes 32} {e f : Entry} (ha : s.Owns a e) (hb : s.Owns b f)
    (hk : e.intentId=f.intentId) : a=b := by
  have hfst : (s.table.entries.zip s.ids).map Prod.fst=s.table.entries := List.map_fst_zip h.length.le
  have hpair : (s.table.entries.zip s.ids).Pairwise (fun p q => Apart p.1 q.1) := by
    have hu := s.table.unique
    rw [← hfst,List.pairwise_map] at hu
    exact hu
  by_contra hne
  have hsymm : Std.Symm (fun p q : Entry × FixedBytes 32 => Apart p.1 q.1) :=
    ⟨fun _ _ hpq hq hp he => hpq hp hq he.symm⟩
  have hapart := hpair.forall ha hb (fun he => hne (Prod.mk.inj he).2)
  exact hapart (h.owned a e ha).2 (h.owned b f hb).2 hk

/-- What a post does to the table and to the accepted ids. -/
inductive Api.Steps (s : Api) (x : Post) : Except ApiError IntentOutcome → Api → Prop where
  | accepts (id : FixedBytes 32) (e : Entry) (s' : Api) (ha : Admits id s x) (hid : postedId x.body=some id)
      (hk : e.intentId=keyOf id) (hp : e.state=.Pending) (ht : s'.table.entries=s.table.entries++[e])
      (hids : s'.ids=s.ids++[id]) : Steps s x (.ok .Accepted) s'
  | repeats (p : Posted) (canonical : Bytes) (s' : Api) (hp : readPosted x.body=some p)
      (hr : x.resolver.resolve p.resource=.ok canonical) (hfits : canonical.length ≤ maxResource)
      (hdup : s.table.entries.any (Entry.pendingFor p.intentId)=true) (ht : s'.table=s.table) (hids : s'.ids=s.ids) :
      Steps s x (.ok .AcceptedIdempotent) s'
  | refuses (e : ApiError) (s' : Api) (hnew : ∀p canonical,readPosted x.body=some p →
      x.resolver.resolve p.resource=.ok canonical → canonical.length ≤ maxResource →
        s.table.entries.any (Entry.pendingFor p.intentId)=false ∧ ¬s.table.Takes p.intentId canonical)
      (ht : s'.table=s.table) (hids : s'.ids=s.ids) : Steps s x (.error e) s'

theorem post_steps (s : Api) (x : Post) : s.Steps x (s.answer x) (s.post x) := by
  have hpost := postIntent_posting x.body x.resolver s.table s.metrics s.ring x.nowMs
  rw [Api.answer,Api.post]
  generalize postIntent x.body x.resolver s.table s.metrics s.ring x.nowMs=r at hpost
  cases hpost with
  | accepted p canonical hp ha t' ht =>
    obtain ⟨id,hid,hk⟩ := readPosted_id hp
    refine .accepts id (admittedEntry p.intentId canonical ha.fits x.nowMs) _ ⟨p,canonical,hp,hid,ha⟩ hid hk rfl ht ?_
    rw [hid]
    rfl
  | idempotent p canonical hp hr hfits hdup => exact .repeats p canonical _ hp hr hfits hdup rfl rfl
  | refused e hnew => exact .refuses e _ hnew rfl rfl

theorem Api.Kept.post (h : s.Kept) (x : Post) : (s.post x).Kept := by
  have hsteps := post_steps s x
  generalize s.answer x=r at hsteps
  cases hsteps with
  | accepts id e _ _ _ hk hp ht hids =>
    have hz : (s.post x).table.entries.zip (s.post x).ids=s.table.entries.zip s.ids++[(e,id)] := by
      rw [ht,hids,List.zip_append h.length]
      rfl
    refine ⟨?_,?_⟩
    · rw [ht,hids,List.length_append,List.length_append,h.length]
      rfl
    · intro id' e' howns
      rw [Api.Owns,hz,List.mem_append,List.mem_singleton] at howns
      obtain howns | heq := howns
      · exact h.owned id' e' howns
      · cases heq
        exact ⟨hk,hp⟩
  | repeats _ _ _ _ _ _ _ ht hids =>
    refine ⟨by rw [ht,hids,h.length],fun id e howns => h.owned id e ?_⟩
    rwa [Api.Owns,ht,hids] at howns
  | refuses _ _ _ ht hids =>
    refine ⟨by rw [ht,hids,h.length],fun id e howns => h.owned id e ?_⟩
    rwa [Api.Owns,ht,hids] at howns

/-- A post accepts the id that it admits, and no other. -/
theorem mem_ids_post (id : FixedBytes 32) (x : Post) : id∈(s.post x).ids ↔ id∈s.ids ∨ Admits id s x := by
  have hsteps := post_steps s x
  generalize s.answer x=r at hsteps
  cases hsteps with
  | accepts id' e _ ha hid _ _ _ hids =>
    rw [hids,List.mem_append,List.mem_singleton]
    refine or_congr_right ⟨?_,?_⟩
    · intro he
      exact he ▸ ha
    · intro h
      obtain ⟨_,_,_,hid',_⟩ := h
      rw [hid] at hid'
      exact (Option.some.inj hid').symm
  | repeats p canonical _ hp hr hfits hdup _ hids =>
    rw [hids]
    refine (or_iff_left ?_).symm
    intro h
    obtain ⟨q,c,hq,_,ha⟩ := h
    rw [hp] at hq
    cases hq
    have hfree := ha.takes.free
    rw [hdup] at hfree
    cases hfree
  | refuses _ _ hnew _ hids =>
    rw [hids]
    refine (or_iff_left ?_).symm
    intro h
    obtain ⟨q,c,hq,_,ha⟩ := h
    exact (hnew q c hq ha.resolves ha.fits).2 ha.takes

/-- A pending table reports the state `pending` for every key that it has. -/
theorem getIntentState_kept (h : s.Kept) {e : Entry} (he : e∈s.table.entries) (id : FixedBytes 32)
    (hk : e.intentId=keyOf id) : getIntentState id.toList s.table=.ok (stateName .Pending) := by
  rw [getIntentState]
  cases hf : s.table.entries.find? (fun e => e.intentId==fixed 16 (id.toList.take lenIntentId)) with
  | none =>
    have hno := List.find?_eq_none.mp hf e he
    rw [hk] at hno
    exact absurd (beq_self_eq_true (keyOf id)) hno
  | some f =>
    obtain ⟨a,_,howns⟩ := h.owner (List.mem_of_find?_eq_some hf)
    simp only [(h.owned a f howns).2]

/-- Nothing is told about `b` from an entry of `a` exactly if `a` has none under the key of `b`. -/
theorem untold_iff (h : s.Kept) (a b : FixedBytes 32) : Untold a b s ↔ (keyOf a=keyOf b → a∉s.ids) := by
  constructor
  · intro hu hk hin
    obtain ⟨e,howns⟩ := h.entry hin
    obtain ⟨he,hp⟩ := h.owned a e howns
    refine hu e howns (he.trans hk) ?_
    rw [hp]
    exact getIntentState_kept h howns.entries b (he.trans hk)
  · intro hno e howns hk
    have he := (h.owned a e howns).1
    exact absurd howns.ids (hno (he.symm.trans hk))

/-- An idempotent answer comes exactly to a readable post of a resource that resolves under a key
that is pending. -/
theorem answer_idempotent_iff (x : Post) : s.answer x=.ok .AcceptedIdempotent ↔
    ∃p canonical,readPosted x.body=some p ∧ x.resolver.resolve p.resource=.ok canonical ∧
      canonical.length ≤ maxResource ∧ s.table.entries.any (Entry.pendingFor p.intentId)=true := by
  have hsteps := post_steps s x
  generalize s.answer x=r at hsteps
  cases hsteps with
  | accepts id e _ ha _ _ _ _ _ =>
    refine ⟨fun h => (by cases h),fun h => ?_⟩
    obtain ⟨p,c,hp,_,_,hdup⟩ := h
    obtain ⟨q,c',hq,_,ha⟩ := ha
    rw [hp] at hq
    cases hq
    have hfree := ha.takes.free
    rw [hdup] at hfree
    cases hfree
  | repeats p canonical _ hp hr hfits hdup _ _ => exact ⟨fun _ => ⟨p,canonical,hp,hr,hfits,hdup⟩,fun _ => rfl⟩
  | refuses _ _ hnew _ _ =>
    refine ⟨fun h => (by cases h),fun h => ?_⟩
    obtain ⟨p,c,hp,hr,hfits,hdup⟩ := h
    have hfree := (hnew p c hp hr hfits).1
    rw [hdup] at hfree
    cases hfree

/-- Idempotent answers name the very id exactly where posts meet no other id of their key. -/
theorem sameId_iff (h : s.Kept) (x : Post) : SameId s x ↔ Distinct s x := by
  constructor
  · intro hsame p canonical id hp hr hfits hid a ha hk
    obtain ⟨id',hid',hkey⟩ := readPosted_id hp
    rw [hid] at hid'
    cases hid'
    obtain ⟨e,howns⟩ := h.entry ha
    obtain ⟨he,hpend⟩ := h.owned a e howns
    have hdup : s.table.entries.any (Entry.pendingFor p.intentId)=true :=
      List.any_eq_true.mpr ⟨e,howns.entries,decide_eq_true ⟨hpend,he.trans (hk.trans hkey.symm)⟩⟩
    obtain ⟨id'',f,hid'',hf,_⟩ := hsame ((answer_idempotent_iff x).mpr ⟨p,canonical,hp,hr,hfits,hdup⟩)
    rw [hid] at hid''
    cases hid''
    exact h.unique howns hf (he.trans (hk.trans (h.owned id f hf).1.symm))
  · intro hd hidem
    obtain ⟨p,canonical,hp,hr,hfits,hdup⟩ := (answer_idempotent_iff x).mp hidem
    obtain ⟨id,hid,hkey⟩ := readPosted_id hp
    obtain ⟨e,he,hpf⟩ := List.any_eq_true.mp hdup
    obtain ⟨hpend,hek⟩ := of_decide_eq_true hpf
    obtain ⟨a,ha,howns⟩ := h.owner he
    have hak : keyOf a=keyOf id := (h.owned a e howns).1.symm.trans (hek.trans hkey)
    have hsame := hd p canonical id hp hr hfits hid a ha hak
    exact ⟨id,e,hid,hsame ▸ howns,hpend⟩

end Steps

/-- Along a run of posts nothing about `b` comes from `a` exactly if their keys differ or no post
admits `a`; and idempotent answers name the very id exactly if no post meets another id of its key. -/
theorem ids_apart_iff (metrics : Metrics) (ring : EventRing) (xs : List Post) :
    (∀a b : FixedBytes 32,a≠b →
      (Meets Api.post (Unblamed a b) (Api.new metrics ring) xs ∧ Always Api.post (Untold a b) (Api.new metrics ring) xs ↔
        Meets Api.post (fun s x => keyOf a=keyOf b → ¬Admits a s x) (Api.new metrics ring) xs)) ∧
    (Meets Api.post SameId (Api.new metrics ring) xs ↔ Meets Api.post Distinct (Api.new metrics ring) xs) := by
  have hkept : (Api.new metrics ring).Kept := ⟨rfl,fun _ _ h => absurd h List.not_mem_nil⟩
  constructor
  · intro a b _
    refine meets_always_iff (I := Api.Kept) (fun s x h => h.post x) ?_ _ xs hkept ?_
    · intro s x h hu
      rw [untold_iff (h.post x),mem_ids_post]
      rw [untold_iff h] at hu
      constructor
      · intro hboth hk hadm
        exact hboth.2 hk (Or.inr hadm)
      · intro hg
        refine ⟨?_,?_⟩
        · intro _ _ e howns
          rw [Entry.pendingFor,decide_eq_false_iff_not]
          intro hpf
          have hk := (h.owned a e howns).1
          exact hu (hk.symm.trans hpf.2) howns.ids
        · intro hk hin
          obtain hin | hadm := hin
          · exact hu hk hin
          · exact hg hk hadm
    · exact fun e howns => absurd howns List.not_mem_nil
  · exact meets_congr (I := Api.Kept) (fun s x h => h.post x) (fun s x h => sameId_iff h x) _ xs hkept

/-- A body with an id of 32 ones and 32 times the digit. -/
def prefixedBody (digit : Char) : List Char :=
  let fields := [jsonField idKey (List.replicate 32 '1'++List.replicate 32 digit),
    jsonField resourceKey (asciiText sampleResource),jsonField actionKey (asciiText sampleAction),
    jsonField rationaleKey [],jsonField subjectKey (hexText peerKey)]
  Char.ofNat 0x7b::(List.intercalate [','] fields++[Char.ofNat 0x7d])

def prefixedPost (digit : Char) : Post := ⟨prefixedBody digit,sampleDispatch.resolver,1000000⟩

def prefixedId (b : UInt8) : FixedBytes 32 := fixed 32 (List.replicate 16 0x11++List.replicate 16 b)

/-- Ids with different first halves are kept apart. -/
theorem ids_apart_sample :
    Meets Api.post (Unblamed (prefixedId 0x11) (fixed 32 (List.replicate 32 0x22))) (Api.new ⟨0⟩ EventRing.new)
      [prefixedPost '1',prefixedPost '2'] ∧
    Always Api.post (Untold (prefixedId 0x11) (fixed 32 (List.replicate 32 0x22))) (Api.new ⟨0⟩ EventRing.new)
      [prefixedPost '1',prefixedPost '2'] := by
  have hkey : keyOf (prefixedId 0x11)≠keyOf (fixed 32 (List.replicate 32 0x22)) := by decide
  apply ((ids_apart_iff ⟨0⟩ EventRing.new [prefixedPost '1',prefixedPost '2']).1 _ _ (by decide)).mpr
  exact ⟨fun hk => absurd hk hkey,fun hk => absurd hk hkey,trivial⟩

/-- A second id with the same first half is taken for the first one. -/
theorem same_half_ids_collide : prefixedId 0x11≠prefixedId 0x22 ∧
    ¬Meets Api.post (Unblamed (prefixedId 0x11) (prefixedId 0x22)) (Api.new ⟨0⟩ EventRing.new)
      [prefixedPost '1',prefixedPost '2'] ∧
    ¬Always Api.post (Untold (prefixedId 0x11) (prefixedId 0x22)) (Api.new ⟨0⟩ EventRing.new)
      [prefixedPost '1',prefixedPost '2'] ∧
    ¬Meets Api.post SameId (Api.new ⟨0⟩ EventRing.new) [prefixedPost '1',prefixedPost '2'] := by
  have hrun : ∃s : Api,Api.post (Api.new ⟨0⟩ EventRing.new) (prefixedPost '1')=s ∧ s.ids=[prefixedId 0x11] ∧
      s.answer (prefixedPost '2')=.ok .AcceptedIdempotent ∧
      (s.table.entries.zip s.ids).any (fun p => p.1.pendingFor (keyOf (prefixedId 0x22)) &&
        decide (p.2=prefixedId 0x11))=true ∧
      getIntentState (prefixedId 0x22).toList s.table=.ok (stateName .Pending) :=
    ⟨_,rfl,by decide +kernel,by decide +kernel,by decide +kernel,by decide +kernel⟩
  obtain ⟨s,hs,hids,hanswer,hany,hstate⟩ := hrun
  have hid : postedId (prefixedPost '2').body=some (prefixedId 0x22) := by decide +kernel
  have hne : prefixedId 0x11≠prefixedId 0x22 := by decide
  obtain ⟨⟨e,a⟩,hmem,hp⟩ := List.any_eq_true.mp hany
  rw [Bool.and_eq_true,decide_eq_true_iff] at hp
  obtain ⟨hpend,ha⟩ := hp
  have howns : s.Owns (prefixedId 0x11) e := ha ▸ hmem
  obtain ⟨hpending,hkey⟩ := of_decide_eq_true hpend
  refine ⟨hne,?_,?_,?_⟩
  · intro h
    have hstep := h.2.1
    rw [hs] at hstep
    have hno := hstep hid hanswer e howns
    rw [hpend] at hno
    cases hno
  · intro h
    have hstep := h.2.1
    rw [hs] at hstep
    refine hstep e howns hkey ?_
    rw [hpending]
    exact hstate
  · intro h
    have hstep := h.2.1
    rw [hs] at hstep
    obtain ⟨id,f,hid',hf,_⟩ := hstep hanswer
    rw [hid] at hid'
    have hin := hf.ids
    rw [hids,← Option.some.inj hid',List.mem_singleton] at hin
    exact hne hin.symm

end Bolina.Control
