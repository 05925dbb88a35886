import Bolina.Codec.Framing

namespace Bolina.Codec

open BigEndian

/-- A length or a count inside a message: the bytes before it, its width and its bound. -/
structure Gate where
  front : Bytes
  width : Nat
  bound : Nat

/-- A format: its parser and its encoder, the signed prefix and the signature part of what is
encoded, the values that are declared to fit, and where in a value's encoding the lengths and
counts stand. `sealed` records the signed prefix in the value. -/
structure Wire (α : Type) where
  parse : Bytes → Except ParseError α
  encode : α → Bytes
  tbs : α → Bytes
  sigPart : α → Bytes
  split : ∀v,encode v=tbs v++sigPart v
  Fits : α → Prop
  sealed : α → α
  gates : α → List Gate

variable {α β : Type}

/-- What the parser accepts is what the encoder writes. -/
def Wire.RoundTrip (W : Wire α) : Prop :=
  (∀w v,W.parse w=.ok v → W.encode v=w) ∧ ∀v,W.Fits v → W.parse (W.encode v)=.ok (W.sealed v)

/-- Every cut of an accepted message is too short, every extension too long, and a length or a
count over its bound is refused whatever follows it. -/
def Wire.Framed (W : Wire α) : Prop :=
  ∀w v,W.parse w=.ok v →
    (∀u t,w=u++t → t≠[] → W.parse u=.error .Truncated) ∧
    (∀t,t≠[] → W.parse (w++t)=.error .TrailingBytes) ∧
    ∀g∈W.gates v,
      (∃n back,n ≤ g.bound ∧ w=g.front++(beBytes g.width n++back)) ∧
      ∀q rest,q.length=g.width → g.bound < beNat q → W.parse (g.front++(q++rest))=.error .Oversize

/-- The encoder writes a length or a count at the gate, and the parser refuses a larger one there. -/
def Gate.Guards (g : Gate) (body : Parser α) (word : Bytes) : Prop :=
  (∃n back,n ≤ g.bound ∧ word=g.front++(beBytes g.width n++back)) ∧
  ∀q,q.length=g.width → g.bound < beNat q → Over body [] (g.front++q)

/-- The parser of a format, as the words of its messages. -/
structure Wire.Exact (W : Wire α) (body : Parser α) (R : Format α) : Prop where
  parse_eq : ∀w,W.parse w=message body w
  codes : Codes body R
  word : ∀v w,R [] v w ↔ W.Fits v ∧ W.sealed v=v ∧ W.encode v=w
  reseal : ∀v,W.Fits v → W.Fits (W.sealed v) ∧ W.sealed (W.sealed v)=W.sealed v ∧ W.encode (W.sealed v)=W.encode v
  gates : ∀v,W.Fits v → ∀g∈W.gates v,g.Guards body (W.encode v)

theorem Wire.Exact.accepts {W : Wire α} {body : Parser α} {R : Format α} (h : W.Exact body R) (w : Bytes)
    (v : α) : W.parse w=.ok v ↔ W.Fits v ∧ W.sealed v=v ∧ W.encode v=w := by
  rw [h.parse_eq,h.codes.message_iff,h.word]

/-- What a parsed message records as its signed bytes is the prefix that is signed. -/
theorem Wire.Exact.recorded {W : Wire α} {body : Parser α} {R : Format α} (h : W.Exact body R) {tbs : α → Bytes}
    (hs : ∀v,tbs (W.sealed v)=W.tbs v) {w : Bytes} {v : α} (hp : W.parse w=.ok v) : tbs v=W.tbs v := by
  have ht := hs v
  rw [((h.accepts w v).mp hp).2.1] at ht
  exact ht

theorem Wire.Exact.roundTrip {W : Wire α} {body : Parser α} {R : Format α} (h : W.Exact body R) :
    W.RoundTrip := by
  refine ⟨fun w v hp => ((h.accepts w v).mp hp).2.2,fun v hv => ?_⟩
  rw [h.accepts]
  exact h.reseal v hv

theorem Wire.Exact.framed {W : Wire α} {body : Parser α} {R : Format α} (h : W.Exact body R) : W.Framed := by
  intro w v hp
  have hR := (h.word v w).mpr ((h.accepts w v).mp hp)
  obtain ⟨hfits,-,rfl⟩ := (h.accepts w v).mp hp
  refine ⟨?_,?_,?_⟩
  · intro u t hw ht
    rw [h.parse_eq]
    exact h.codes.message_short v u t (hw ▸ hR) ht
  · intro t ht
    rw [h.parse_eq]
    exact h.codes.message_trailing v _ t hR ht
  · intro g hg
    obtain ⟨hword,hover⟩ := h.gates v hfits g hg
    refine ⟨hword,fun q rest hq hb => ?_⟩
    rw [h.parse_eq,← List.append_assoc]
    exact message_over _ rest (hover q hq hb)

section Signed

/-- A signed structure: its fields, the bytes read so far, and the signature over them. -/
def signed (x : Parser α) (sigs : Parser β) (put : α → Bytes → β → α) : Parser α := do
  let a ← x
  let tbs ← consumed
  let s ← sigs
  return put a tbs s

variable {x : Parser α} {sigs : Parser β} {P : α → Prop} {word : α → Bytes} {Q : β → Prop} {back : β → Bytes}

/-- The words of a signed structure. -/
def signedFormat (P : α → Prop) (word : α → Bytes) (Q : β → Prop) (back : β → Bytes)
    (put : α → Bytes → β → α) : Format α :=
  fun front v w => ∃a s,P a ∧ Q s ∧ v=put a (front++word a) s ∧ w=word a++back s

theorem codes_signed (put : α → Bytes → β → α) (hx : Lays x P word) (hs : Lays sigs Q back) :
    Codes (signed x sigs put) (signedFormat P word Q back put) := by
  refine (hx.bind (fun a => codes_consumed.bind (fun tbs => hs.bind
    (fun s => Codes.pure (put a tbs s))))).congr ?_
  intro front v w
  constructor
  · intro hw
    obtain ⟨a,_,_,rfl,⟨hP,rfl⟩,_,_,_,rfl,⟨rfl,rfl⟩,s,_,_,rfl,⟨hQ,rfl⟩,rfl,rfl⟩ := hw
    exact ⟨a,s,hP,hQ,rfl,by simp only [List.nil_append,List.append_nil]⟩
  · intro hw
    obtain ⟨a,s,hP,hQ,rfl,rfl⟩ := hw
    exact ⟨a,_,_,rfl,⟨hP,rfl⟩,front++word a,[],back s,rfl,⟨rfl,rfl⟩,s,back s,[],
      (List.append_nil _).symm,⟨hQ,rfl⟩,rfl,rfl⟩

/-- A signed structure is exact when a value is put together from its fields and its
signature part, and taken apart into them. -/
theorem exact_of_signed {W : Wire α} (put : α → Bytes → β → α) (fields : α → α) (sigOf : α → β)
    (hx : Lays x P word) (hs : Lays sigs Q back) (hparse : ∀w,W.parse w=message (signed x sigs put) w)
    (hput : ∀a s,P a → Q s → W.Fits (put a (word a) s) ∧ W.sealed (put a (word a) s)=put a (word a) s ∧
      W.encode (put a (word a) s)=word a++back s)
    (hapart : ∀v,W.Fits v → P (fields v) ∧ Q (sigOf v) ∧ put (fields v) (word (fields v)) (sigOf v)=W.sealed v ∧
      word (fields v)++back (sigOf v)=W.encode v)
    (hgates : ∀v,W.Fits v → ∀g∈W.gates v,g.Guards (signed x sigs put) (W.encode v)) :
    W.Exact (signed x sigs put) (signedFormat P word Q back put) := by
  refine ⟨hparse,codes_signed put hx hs,?_,?_,hgates⟩
  · intro v w
    constructor
    · intro h
      obtain ⟨a,s,hP,hQ,rfl,rfl⟩ := h
      exact hput a s hP hQ
    · intro h
      obtain ⟨hv,hseal,rfl⟩ := h
      obtain ⟨hP,hQ,hback,hencode⟩ := hapart v hv
      exact ⟨fields v,sigOf v,hP,hQ,(hback.trans hseal).symm,hencode.symm⟩
  · intro v hv
    obtain ⟨hP,hQ,hback,hencode⟩ := hapart v hv
    have hfull := hput (fields v) (sigOf v) hP hQ
    rw [hback] at hfull
    exact ⟨hfull.1,hfull.2.1,hfull.2.2.trans hencode⟩

end Signed

theorem lt_of_beNat {max n : UInt8} (h : max.toNat < beNat [n]) : max < n := by
  rw [UInt8.lt_iff_toNat_lt]
  simpa [beNat] using h

section Envelope

def envelopeFields : Parser Envelope := do
  let version ← u8r
  let channelId ← take lenChannelId
  let sender ← take lenPubkey
  let seq ← u64be
  let parentCount ← u8r
  oversize (maxParents<parentCount)
  let parents ← take (parentCount.toNat*lenParent)
  let ts ← u64be
  let bodyType ← u8r
  let body ← field32 maxBody
  return { version,channelId,sender,seq,parentCount,parents,ts,bodyType,body,tbs := [],sig := [] }

/-- The bytes before the signature. -/
def tbsOfEnvelope (e : Envelope) : Bytes :=
  [e.version]++e.channelId++e.sender++put64 e.seq++[e.parentCount]++e.parents++put64 e.ts++
    [e.bodyType]++pushField32 e.body

def envelopeFits (e : Envelope) : Prop :=
  e.channelId.length=lenChannelId ∧ e.sender.length=lenPubkey ∧ e.parentCount ≤ maxParents ∧
  e.parents.length=e.parentCount.toNat*lenParent ∧ e.body.length ≤ maxBody

def envelopeWire : Wire Envelope where
  parse := parseEnvelope
  encode := encodeEnvelope
  tbs := tbsOfEnvelope
  sigPart e := e.sig
  split _ := rfl
  Fits e := envelopeFits e ∧ e.sig.length=lenSig
  sealed e := { e with tbs := tbsOfEnvelope e }
  gates e :=
    [⟨[e.version]++e.channelId++e.sender++put64 e.seq,1,maxParents.toNat⟩,
     ⟨[e.version]++e.channelId++e.sender++put64 e.seq++[e.parentCount]++e.parents++put64 e.ts++
       [e.bodyType],4,maxBody⟩]

theorem codes_envelopeFields : Lays envelopeFields (fun e => envelopeFits e ∧ e.tbs=[] ∧ e.sig=[]) tbsOfEnvelope := by
  refine Codes.layout (codes_u8r.field Envelope.version fun version =>
    (codes_take lenChannelId).field Envelope.channelId fun channelId =>
    (codes_take lenPubkey).field Envelope.sender fun sender =>
    codes_u64be.field Envelope.seq fun seq =>
    codes_u8r.field Envelope.parentCount fun parentCount =>
    (codes_oversize _).test fun _ =>
    (codes_take (parentCount.toNat*lenParent)).field Envelope.parents fun parents =>
    codes_u64be.field Envelope.ts fun ts =>
    codes_u8r.field Envelope.bodyType fun bodyType =>
    (codes_field32 maxBody (by decide)).field Envelope.body fun body =>
    Codes.value _ _ (fun e : Envelope => e.tbs=[] ∧ e.sig=[]) ?_) ?_ ?_
  · intro e
    cases e
    simp only [Envelope.mk.injEq,and_assoc,true_and]
  · intro e
    simp only [envelopeFits,and_assoc,true_and,decide_eq_true_iff,UInt8.not_lt]
  · intro e
    simp only [tbsOfEnvelope,List.append_assoc,List.append_nil]

def putEnvelope (e : Envelope) (tbs sig : Bytes) : Envelope := { e with tbs,sig }

theorem envelope_eq : envelope=(do
    let e ← signed envelopeFields (take lenSig) putEnvelope
    finish
    return e) := by
  simp only [envelope,signed,envelopeFields,field32,putEnvelope,bind_assoc,pure_bind]

theorem envelope_gates (v : Envelope) (hv : envelopeWire.Fits v) (g : Gate) (hg : g∈envelopeWire.gates v) :
    g.Guards (signed envelopeFields (take lenSig) putEnvelope) (encodeEnvelope v) := by
  obtain ⟨⟨hchannel,hsender,hcount,hparents,hbody⟩,-⟩ := hv
  rcases List.mem_cons.mp hg with rfl | hg
  · refine ⟨⟨v.parentCount.toNat,v.parents++(put64 v.ts++([v.bodyType]++(pushField32 v.body++v.sig))),hcount,?_⟩,?_⟩
    · simp only [encodeEnvelope,beBytes_one,List.append_assoc]
    · intro q hq hb
      obtain ⟨n,rfl⟩ := List.length_eq_one_iff.mp hq
      simp only [List.append_assoc]
      exact .here _ _ _ _ (.past codes_u8r _ v.version _ trivial (.past (codes_take _) _ v.channelId _ hchannel
        (.past (codes_take _) _ v.sender _ hsender (.past codes_u64be _ v.seq _ trivial
        (over_count _ _ _ _ (lt_of_beNat hb))))))
  · obtain rfl := List.mem_singleton.mp hg
    refine ⟨⟨v.body.length,v.body++v.sig,hbody,?_⟩,?_⟩
    · simp only [encodeEnvelope,pushField32,List.append_assoc]
    · intro q hq hb
      simp only [List.append_assoc]
      exact .here _ _ _ _ (.past codes_u8r _ v.version _ trivial (.past (codes_take _) _ v.channelId _ hchannel
        (.past (codes_take _) _ v.sender _ hsender (.past codes_u64be _ v.seq _ trivial
        (.past codes_u8r _ v.parentCount _ trivial (.test (codes_oversize _) _ _ (by simpa using hcount)
        (.past (codes_take _) _ v.parents _ hparents (.past codes_u64be _ v.ts _ trivial
        (.past codes_u8r _ v.bodyType _ trivial (.here _ _ _ _ (over_field32 _ _ _ hq hb)))))))))))

theorem envelope_exact : ∃body R,envelopeWire.Exact body R := by
  have hparse : ∀w,parseEnvelope w=message (signed envelopeFields (take lenSig) putEnvelope) w := by
    intro w
    change envelope.run' ⟨w,0⟩=_
    rw [envelope_eq]
    rfl
  refine ⟨_,_,exact_of_signed putEnvelope (fun e => { e with tbs := [],sig := [] }) Envelope.sig codes_envelopeFields
    (codes_take lenSig) hparse ?_ ?_ envelope_gates⟩
  · intro a sig hfits hsig
    exact ⟨⟨hfits.1,hsig⟩,rfl,rfl⟩
  · intro v hv
    exact ⟨⟨hv.1,rfl,rfl⟩,hv.2,rfl,rfl⟩

end Envelope

section Intent

def intentFields : Parser Intent := do
  let intentId ← take lenIntentId
  let resourceId ← field16 maxResource
  let action ← field32 maxAction
  let rationale ← field16 maxRationale
  return { intentId,resourceId,action,rationale }

def intentFits (i : Intent) : Prop :=
  i.intentId.length=lenIntentId ∧ i.resourceId.length ≤ maxResource ∧ i.action.length ≤ maxAction ∧
  i.rationale.length ≤ maxRationale

/-- An intent carries no signature of its own. -/
def intentWire : Wire Intent where
  parse := parseIntent
  encode := encodeIntent
  tbs := encodeIntent
  sigPart _ := []
  split i := (List.append_nil (encodeIntent i)).symm
  Fits := intentFits
  sealed i := i
  gates i :=
    [⟨i.intentId,2,maxResource⟩,⟨i.intentId++pushField16 i.resourceId,4,maxAction⟩,
     ⟨i.intentId++pushField16 i.resourceId++pushField32 i.action,2,maxRationale⟩]

theorem codes_intentFields : Lays intentFields intentFits encodeIntent := by
  refine Codes.layout ((codes_take lenIntentId).field Intent.intentId fun intentId =>
    (codes_field16 maxResource (by decide)).field Intent.resourceId fun resourceId =>
    (codes_field32 maxAction (by decide)).field Intent.action fun action =>
    (codes_field16 maxRationale (by decide)).field Intent.rationale fun rationale =>
    Codes.value _ _ (fun _ : Intent => True) ?_) ?_ ?_
  · intro i
    cases i
    simp only [Intent.mk.injEq,and_assoc,true_and,and_true]
  · intro i
    simp only [intentFits,and_true]
  · intro i
    simp only [encodeIntent,List.append_assoc,List.append_nil]

theorem intent_eq : intent=(do
    let i ← intentFields
    finish
    return i) := by
  simp only [intent,intentFields,bind_assoc,pure_bind]

theorem intent_gates (v : Intent) (hv : intentFits v) (g : Gate) (hg : g∈intentWire.gates v) :
    g.Guards intentFields (encodeIntent v) := by
  obtain ⟨hid,hresource,haction,hrationale⟩ := hv
  rcases List.mem_cons.mp hg with rfl | hg
  · refine ⟨⟨v.resourceId.length,v.resourceId++(pushField32 v.action++pushField16 v.rationale),hresource,?_⟩,?_⟩
    · simp only [encodeIntent,pushField16,List.append_assoc]
    · intro q hq hb
      exact .past (codes_take _) _ v.intentId _ hid (.here _ _ _ _ (over_field16 _ _ _ hq hb))
  rcases List.mem_cons.mp hg with rfl | hg
  · refine ⟨⟨v.action.length,v.action++pushField16 v.rationale,haction,?_⟩,?_⟩
    · simp only [encodeIntent,pushField32,List.append_assoc]
    · intro q hq hb
      simp only [List.append_assoc]
      exact .past (codes_take _) _ v.intentId _ hid
        (.past (codes_field16 _ (by decide)) _ v.resourceId _ hresource
        (.here _ _ _ _ (over_field32 _ _ _ hq hb)))
  · obtain rfl := List.mem_singleton.mp hg
    refine ⟨⟨v.rationale.length,v.rationale,hrationale,rfl⟩,?_⟩
    intro q hq hb
    simp only [List.append_assoc]
    exact .past (codes_take _) _ v.intentId _ hid
      (.past (codes_field16 _ (by decide)) _ v.resourceId _ hresource
      (.past (codes_field32 _ (by decide)) _ v.action _ haction
      (.here _ _ _ _ (over_field16 _ _ _ hq hb))))

theorem intent_exact : ∃body R,intentWire.Exact body R := by
  refine ⟨intentFields,_,?_,codes_intentFields,?_,fun v hv => ⟨hv,rfl,rfl⟩,fun v hv g hg => intent_gates v hv g hg⟩
  · intro w
    change intent.run' ⟨w,0⟩=_
    rw [intent_eq]
    rfl
  · intro v w
    constructor
    · intro hw
      obtain ⟨hfits,rfl⟩ := hw
      exact ⟨hfits,rfl,rfl⟩
    · intro hw
      obtain ⟨hfits,-,rfl⟩ := hw
      exact ⟨hfits,rfl⟩

end Intent

section Grant

def grantFields : Parser Grant := do
  let version ← u8r
  let grantId ← take lenGrantId
  let intentId ← take lenIntentId
  let approver ← take lenPubkey
  let subject ← take lenPubkey
  let executor ← take lenPubkey
  let resourceId ← field16 maxResource
  let actionDigest ← take lenActionDigest
  let notAfter ← u64be
  return { version,grantId,intentId,approver,subject,executor,resourceId,actionDigest,notAfter,tbs := [],sig := [] }

def tbsOfGrant (g : Grant) : Bytes :=
  [g.version]++g.grantId++g.intentId++g.approver++g.subject++g.executor++pushField16 g.resourceId++
    g.actionDigest++put64 g.notAfter

def grantFits (g : Grant) : Prop :=
  g.grantId.length=lenGrantId ∧ g.intentId.length=lenIntentId ∧ g.approver.length=lenPubkey ∧
  g.subject.length=lenPubkey ∧ g.executor.length=lenPubkey ∧ g.resourceId.length ≤ maxResource ∧
  g.actionDigest.length=lenActionDigest

def grantWire : Wire Grant where
  parse := parseGrant
  encode := encodeGrant
  tbs := tbsOfGrant
  sigPart g := g.sig
  split _ := rfl
  Fits g := grantFits g ∧ g.sig.length=lenSig
  sealed g := { g with tbs := tbsOfGrant g }
  gates g := [⟨[g.version]++g.grantId++g.intentId++g.approver++g.subject++g.executor,2,maxResource⟩]

theorem codes_grantFields : Lays grantFields (fun g => grantFits g ∧ g.tbs=[] ∧ g.sig=[]) tbsOfGrant := by
  refine Codes.layout (codes_u8r.field Grant.version fun version =>
    (codes_take lenGrantId).field Grant.grantId fun grantId =>
    (codes_take lenIntentId).field Grant.intentId fun intentId =>
    (codes_take lenPubkey).field Grant.approver fun approver =>
    (codes_take lenPubkey).field Grant.subject fun subject =>
    (codes_take lenPubkey).field Grant.executor fun executor =>
    (codes_field16 maxResource (by decide)).field Grant.resourceId fun resourceId =>
    (codes_take lenActionDigest).field Grant.actionDigest fun actionDigest =>
    codes_u64be.field Grant.notAfter fun notAfter =>
    Codes.value _ _ (fun g : Grant => g.tbs=[] ∧ g.sig=[]) ?_) ?_ ?_
  · intro g
    cases g
    simp only [Grant.mk.injEq,and_assoc,true_and]
  · intro g
    simp only [grantFits,and_assoc,true_and]
  · intro g
    simp only [tbsOfGrant,List.append_assoc,List.append_nil]

def putGrant (g : Grant) (tbs sig : Bytes) : Grant := { g with tbs,sig }

theorem grant_eq : grant=(do
    let g ← signed grantFields (take lenSig) putGrant
    finish
    return g) := by
  simp only [grant,signed,grantFields,putGrant,bind_assoc,pure_bind]

theorem grant_gates (v : Grant) (hv : grantWire.Fits v) (g : Gate) (hg : g∈grantWire.gates v) :
    g.Guards (signed grantFields (take lenSig) putGrant) (encodeGrant v) := by
  obtain ⟨⟨hgrant,hintent,happrover,hsubject,hexecutor,hresource,-⟩,-⟩ := hv
  obtain rfl := List.mem_singleton.mp hg
  refine ⟨⟨v.resourceId.length,v.resourceId++(v.actionDigest++(put64 v.notAfter++v.sig)),hresource,?_⟩,?_⟩
  · simp only [encodeGrant,pushField16,List.append_assoc]
  · intro q hq hb
    simp only [List.append_assoc]
    exact .here _ _ _ _ (.past codes_u8r _ v.version _ trivial (.past (codes_take _) _ v.grantId _ hgrant
      (.past (codes_take _) _ v.intentId _ hintent (.past (codes_take _) _ v.approver _ happrover
      (.past (codes_take _) _ v.subject _ hsubject (.past (codes_take _) _ v.executor _ hexecutor
      (.here _ _ _ _ (over_field16 _ _ _ hq hb))))))))

theorem grant_exact : ∃body R,grantWire.Exact body R := by
  have hparse : ∀w,parseGrant w=message (signed grantFields (take lenSig) putGrant) w := by
    intro w
    change grant.run' ⟨w,0⟩=_
    rw [grant_eq]
    rfl
  refine ⟨_,_,exact_of_signed putGrant (fun g => { g with tbs := [],sig := [] }) Grant.sig codes_grantFields
    (codes_take lenSig) hparse ?_ ?_ grant_gates⟩
  · intro a sig hfits hsig
    exact ⟨⟨hfits.1,hsig⟩,rfl,rfl⟩
  · intro v hv
    exact ⟨⟨hv.1,rfl,rfl⟩,hv.2,rfl,rfl⟩

end Grant

section Refusal

def refusalFields : Parser Refusal := do
  let intentId ← take lenIntentId
  let note ← field16 maxNote
  return { intentId,note,tbs := [],sig := [] }

def tbsOfRefusal (r : Refusal) : Bytes := r.intentId++pushField16 r.note

def refusalFits (r : Refusal) : Prop := r.intentId.length=lenIntentId ∧ r.note.length ≤ maxNote

def refusalWire : Wire Refusal where
  parse := parseRefusal
  encode := encodeRefusal
  tbs := tbsOfRefusal
  sigPart r := r.sig
  split _ := rfl
  Fits r := refusalFits r ∧ r.sig.length=lenSig
  sealed r := { r with tbs := tbsOfRefusal r }
  gates r := [⟨r.intentId,2,maxNote⟩]

theorem codes_refusalFields :
    Lays refusalFields (fun r => refusalFits r ∧ r.tbs=[] ∧ r.sig=[]) tbsOfRefusal := by
  refine Codes.layout ((codes_take lenIntentId).field Refusal.intentId fun intentId =>
    (codes_field16 maxNote (by decide)).field Refusal.note fun note =>
    Codes.value _ _ (fun r : Refusal => r.tbs=[] ∧ r.sig=[]) ?_) ?_ ?_
  · intro r
    cases r
    simp only [Refusal.mk.injEq,and_assoc,true_and]
  · intro r
    simp only [refusalFits,and_assoc]
  · intro r
    simp only [tbsOfRefusal,List.append_nil]

def putRefusal (r : Refusal) (tbs sig : Bytes) : Refusal := { r with tbs,sig }

theorem refusal_eq : refusal=(do
    let r ← signed refusalFields (take lenSig) putRefusal
    finish
    return r) := by
  simp only [refusal,signed,refusalFields,putRefusal,bind_assoc,pure_bind]

theorem refusal_gates (v : Refusal) (hv : refusalWire.Fits v) (g : Gate) (hg : g∈refusalWire.gates v) :
    g.Guards (signed refusalFields (take lenSig) putRefusal) (encodeRefusal v) := by
  obtain ⟨⟨hintent,hnote⟩,-⟩ := hv
  obtain rfl := List.mem_singleton.mp hg
  refine ⟨⟨v.note.length,v.note++v.sig,hnote,?_⟩,?_⟩
  · simp only [encodeRefusal,pushField16,List.append_assoc]
  · intro q hq hb
    exact .here _ _ _ _ (.past (codes_take _) _ v.intentId _ hintent
      (.here _ _ _ _ (over_field16 _ _ _ hq hb)))

theorem refusal_exact : ∃body R,refusalWire.Exact body R := by
  have hparse : ∀w,parseRefusal w=message (signed refusalFields (take lenSig) putRefusal) w := by
    intro w
    change refusal.run' ⟨w,0⟩=_
    rw [refusal_eq]
    rfl
  refine ⟨_,_,exact_of_signed putRefusal (fun r => { r with tbs := [],sig := [] }) Refusal.sig codes_refusalFields
    (codes_take lenSig) hparse ?_ ?_ refusal_gates⟩
  · intro a sig hfits hsig
    exact ⟨⟨hfits.1,hsig⟩,rfl,rfl⟩
  · intro v hv
    exact ⟨⟨hv.1,rfl,rfl⟩,hv.2,rfl,rfl⟩

end Refusal

section Span

def spanFields : Parser Span := do
  let version ← u8r
  let spanId ← take lenSpanId
  let traceId ← take lenTraceId
  let resourceId ← field16 maxResource
  let methodId ← u8r
  let volatility ← u8r
  let origin ← take lenOrigin
  let observedAt ← u64be
  let digest ← take lenDigest
  let executor ← take lenPubkey
  return { version,spanId,traceId,resourceId,methodId,volatility,origin,observedAt,digest,executor,
           tbs := [],sig := [] }

def tbsOfSpan (s : Span) : Bytes :=
  [s.version]++s.spanId++s.traceId++pushField16 s.resourceId++[s.methodId]++[s.volatility]++s.origin++
    put64 s.observedAt++s.digest++s.executor

def spanFits (s : Span) : Prop :=
  s.spanId.length=lenSpanId ∧ s.traceId.length=lenTraceId ∧ s.resourceId.length ≤ maxResource ∧
  s.origin.length=lenOrigin ∧ s.digest.length=lenDigest ∧ s.executor.length=lenPubkey

def spanWire : Wire Span where
  parse := parseSpan
  encode := encodeSpan
  tbs := tbsOfSpan
  sigPart s := s.sig
  split _ := rfl
  Fits s := spanFits s ∧ s.sig.length=lenSig
  sealed s := { s with tbs := tbsOfSpan s }
  gates s := [⟨[s.version]++s.spanId++s.traceId,2,maxResource⟩]

theorem codes_spanFields : Lays spanFields (fun s => spanFits s ∧ s.tbs=[] ∧ s.sig=[]) tbsOfSpan := by
  refine Codes.layout (codes_u8r.field Span.version fun version =>
    (codes_take lenSpanId).field Span.spanId fun spanId =>
    (codes_take lenTraceId).field Span.traceId fun traceId =>
    (codes_field16 maxResource (by decide)).field Span.resourceId fun resourceId =>
    codes_u8r.field Span.methodId fun methodId =>
    codes_u8r.field Span.volatility fun volatility =>
    (codes_take lenOrigin).field Span.origin fun origin =>
    codes_u64be.field Span.observedAt fun observedAt =>
    (codes_take lenDigest).field Span.digest fun digest =>
    (codes_take lenPubkey).field Span.executor fun executor =>
    Codes.value _ _ (fun s : Span => s.tbs=[] ∧ s.sig=[]) ?_) ?_ ?_
  · intro s
    cases s
    simp only [Span.mk.injEq,and_assoc,true_and]
  · intro s
    simp only [spanFits,and_assoc,true_and]
  · intro s
    simp only [tbsOfSpan,List.append_assoc,List.append_nil]

def putSpan (s : Span) (tbs sig : Bytes) : Span := { s with tbs,sig }

theorem span_eq : span=(do
    let s ← signed spanFields (take lenSig) putSpan
    finish
    return s) := by
  simp only [span,signed,spanFields,putSpan,bind_assoc,pure_bind]

theorem span_gates (v : Span) (hv : spanWire.Fits v) (g : Gate) (hg : g∈spanWire.gates v) :
    g.Guards (signed spanFields (take lenSig) putSpan) (encodeSpan v) := by
  obtain ⟨⟨hspan,htrace,hresource,-⟩,-⟩ := hv
  obtain rfl := List.mem_singleton.mp hg
  refine ⟨⟨v.resourceId.length,v.resourceId++([v.methodId]++([v.volatility]++(v.origin++
    (put64 v.observedAt++(v.digest++(v.executor++v.sig)))))),hresource,?_⟩,?_⟩
  · simp only [encodeSpan,pushField16,List.append_assoc]
  · intro q hq hb
    simp only [List.append_assoc]
    exact .here _ _ _ _ (.past codes_u8r _ v.version _ trivial (.past (codes_take _) _ v.spanId _ hspan
      (.past (codes_take _) _ v.traceId _ htrace (.here _ _ _ _ (over_field16 _ _ _ hq hb)))))

theorem span_exact : ∃body R,spanWire.Exact body R := by
  have hparse : ∀w,parseSpan w=message (signed spanFields (take lenSig) putSpan) w := by
    intro w
    change span.run' ⟨w,0⟩=_
    rw [span_eq]
    rfl
  refine ⟨_,_,exact_of_signed putSpan (fun s => { s with tbs := [],sig := [] }) Span.sig codes_spanFields
    (codes_take lenSig) hparse ?_ ?_ span_gates⟩
  · intro a sig hfits hsig
    exact ⟨⟨hfits.1,hsig⟩,rfl,rfl⟩
  · intro v hv
    exact ⟨⟨hv.1,rfl,rfl⟩,hv.2,rfl,rfl⟩

end Span

end Bolina.Codec
