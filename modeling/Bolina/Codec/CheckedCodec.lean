import Bolina.Codec.CertFormat
import Bolina.Framework.Panic

namespace Bolina.Checked

open BigEndian Panic
open Codec (Cursor ParseError Envelope Intent Grant Refusal Cert)
open Codec (lenPubkey lenSig lenChannelId lenParent lenIntentId lenGrantId lenActionDigest lenScopeId lenCaKey
  maxParents maxBody maxResource maxAction maxRationale maxNote maxName maxScope maxCaSigs)

/-- No slice of the code is longer. -/
def sliceLimit : Nat := 2^63

/-- A step of a parser that may panic. -/
abbrev Parser := StateT Cursor (ExceptT ParseError Option)

def need (n : Nat) : Parser Unit := do
  let c ← get
  let stop ← checked (add c.pos n)
  if stop ≤ c.buf.length then return () else throw .Truncated

/-- The steps that read a field of `n` bytes and go on behind it. -/
def read {α : Type} (n : Nat) (field : Cursor → Option α) : Parser α := do
  need n
  let c ← get
  let v ← checked (field c)
  let pos ← checked (add c.pos n)
  set { c with pos }
  return v

/-- The byte at an offset from the cursor. -/
def byteAt (c : Cursor) (i : Nat) : Option UInt8 := do index c.buf (← add c.pos i)

def sliceAt (c : Cursor) (n : Nat) : Option Bytes := do range c.buf c.pos (← add c.pos n)

def u8r : Parser UInt8 := read 1 (fun c => index c.buf c.pos)

def u16be : Parser UInt16 := read 2 (fun c => do
  return UInt16.ofNat (beNat [← index c.buf c.pos,← byteAt c 1]))

def u32be : Parser UInt32 := read 4 (fun c => do
  return UInt32.ofNat (beNat [← index c.buf c.pos,← byteAt c 1,← byteAt c 2,← byteAt c 3]))

def u64be : Parser UInt64 := read 8 (fun c => do
  return be64 (← copy (List.replicate 8 0) (← sliceAt c 8)))

def take (n : Nat) : Parser Bytes := read n (fun c => sliceAt c n)

def oversize (b : Bool) : Parser Unit := if b then throw .Oversize else return ()

def field16 (max : Nat) : Parser Bytes := do
  let len ← u16be
  oversize (max<len.toNat)
  take len.toNat

def field32 (max : Nat) : Parser Bytes := do
  let len ← u32be
  oversize (max<len.toNat)
  take len.toNat

def consumed : Parser Bytes := do
  let c ← get
  checked (range c.buf 0 c.pos)

def rest : Parser Bytes := do
  let c ← get
  checked (range c.buf c.pos c.buf.length)

def finish : Parser Unit := do
  let rest ← rest
  if rest=[] then return () else throw .TrailingBytes

def envelope : Parser Envelope := do
  let version ← u8r
  let channelId ← take lenChannelId
  let sender ← take lenPubkey
  let seq ← u64be
  let parentCount ← u8r
  oversize (maxParents<parentCount)
  let parentsLen ← checked (mul parentCount.toNat lenParent)
  let parents ← take parentsLen
  let ts ← u64be
  let bodyType ← u8r
  let bodyLen ← u32be
  oversize (maxBody<bodyLen.toNat)
  let body ← take bodyLen.toNat
  let tbs ← consumed
  let sig ← take lenSig
  finish
  return { version,channelId,sender,seq,parentCount,parents,ts,bodyType,body,tbs,sig }

def intent : Parser Intent := do
  let intentId ← take lenIntentId
  let resourceId ← field16 maxResource
  let action ← field32 maxAction
  let rationale ← field16 maxRationale
  finish
  return { intentId,resourceId,action,rationale }

def grant : Parser Grant := do
  let version ← u8r
  let grantId ← take lenGrantId
  let intentId ← take lenIntentId
  let approver ← take lenPubkey
  let subject ← take lenPubkey
  let executor ← take lenPubkey
  let resourceId ← field16 maxResource
  let actionDigest ← take lenActionDigest
  let notAfter ← u64be
  let tbs ← consumed
  let sig ← take lenSig
  finish
  return { version,grantId,intentId,approver,subject,executor,resourceId,actionDigest,notAfter,tbs,sig }

def refusal : Parser Refusal := do
  let intentId ← take lenIntentId
  let note ← field16 maxNote
  let tbs ← consumed
  let sig ← take lenSig
  finish
  return { intentId,note,tbs,sig }

/-- A key stands above the one before it. -/
def ascends (prev : Option Bytes) (caKey : Bytes) : Parser Unit :=
  if ∃k∈prev,caKey ≤ k then throw .Malformed else return ()

/-- The CA signatures: `n` of them are left, and `prev` is the key before them. -/
def caSigs : Nat → Option Bytes → Parser Unit
  | 0,_ => return ()
  | n+1,prev => do
    let caKey ← take lenCaKey
    ascends prev caKey
    let _ ← take lenSig
    caSigs n (some caKey)

def nonzero (count : UInt8) : Parser Unit := if count=0 then throw .Malformed else return ()

def cert : Parser Cert := do
  let version ← u8r
  let roleBits ← u8r
  let sigPubkey ← take lenPubkey
  let kexPubkey ← take lenPubkey
  let notBefore ← u64be
  let notAfter ← u64be
  let name ← field16 maxName
  let scopeCount ← u8r
  oversize (maxScope<scopeCount)
  let scopesLen ← checked (mul scopeCount.toNat lenScopeId)
  let scopeIds ← take scopesLen
  let tbs ← consumed
  let caSigCount ← u8r
  nonzero caSigCount
  oversize (maxCaSigs<caSigCount)
  let caStart ← get
  caSigs caSigCount.toNat none
  let caEnd ← get
  let caSigs ← checked (range caEnd.buf caStart.pos caEnd.pos)
  finish
  return { version,roleBits,sigPubkey,kexPubkey,notBefore,notAfter,name,scopeCount,scopeIds,caSigCount,caSigs,tbs }

def parseEnvelope (buf : Bytes) : Option (Except ParseError Envelope) := runFrom envelope ⟨buf,0⟩
def parseIntent (buf : Bytes) : Option (Except ParseError Intent) := runFrom intent ⟨buf,0⟩
def parseGrant (buf : Bytes) : Option (Except ParseError Grant) := runFrom grant ⟨buf,0⟩
def parseRefusal (buf : Bytes) : Option (Except ParseError Refusal) := runFrom refusal ⟨buf,0⟩
def parseCert (buf : Bytes) : Option (Except ParseError Cert) := runFrom cert ⟨buf,0⟩

/-- The cursor stands in its buffer, at `lo` or behind it. -/
structure Inside (lo : Nat) (c : Cursor) : Prop where
  low : lo ≤ c.pos
  high : c.pos ≤ c.buf.length
  fits : c.buf.length < sliceLimit

section Primitives

theorem add_inside {lo n : Nat} {c : Cursor} (h : Inside lo c) (hn : n < 2^32) : c.pos+n < wordLimit := by
  have hp := h.high
  have hf := h.fits
  rw [sliceLimit] at hf
  rw [wordLimit]
  omega

theorem take_eq (n : Nat) (c : Cursor) : Codec.take n c=
    if c.pos+n ≤ c.buf.length then .ok ((c.buf.drop c.pos).take n,{ c with pos := c.pos+n })
    else .error .Truncated := by
  simp only [Codec.take,Codec.need,bind,StateT.bind]
  split <;> rfl

theorem need_eq {lo n : Nat} {c : Cursor} (h : Inside lo c) (hn : n < 2^32) :
    need n c=ExceptT.mk (some (if c.pos+n ≤ c.buf.length then .ok ((),c) else .error .Truncated)) := by
  rw [need,step_get,step_checked (add_eq (add_inside h hn))]
  split <;> rfl

/-- A field whose read is the value of its bytes runs like a take of them. -/
theorem runs_read {α : Type} {lo n : Nat} {field : Cursor → Option α} {value : Bytes → α} (hn : n < 2^32)
    (hread : ∀c,Inside lo c → c.pos+n ≤ c.buf.length → field c=some (value ((c.buf.drop c.pos).take n))) :
    Runs (Inside lo) (read n field) (do return value (← Codec.take n)) (fun _ => Inside lo) := by
  intro c hc
  have hlim := add_inside hc hn
  by_cases hl : c.pos+n ≤ c.buf.length
  · have hneed := need_eq hc hn
    rw [if_pos hl] at hneed
    have hp : (read n field) c=
        ExceptT.mk (some (.ok (value ((c.buf.drop c.pos).take n),{ c with pos := c.pos+n }))) := by
      rw [read,step_ok hneed,step_get,step_checked (hread c hc hl),step_checked (add_eq hlim),step_set]
      rfl
    have hq : (do return value (← Codec.take n) : Codec.Parser α) c=
        .ok (value ((c.buf.drop c.pos).take n),{ c with pos := c.pos+n }) := by
      simp only [bind,StateT.bind,take_eq,if_pos hl]
      rfl
    refine ⟨by rw [hp,hq],fun a c' h => ?_⟩
    rw [hq] at h
    cases h
    exact ⟨hc.low.trans (Nat.le_add_right _ _),hl,hc.fits⟩
  · have hneed := need_eq hc hn
    rw [if_neg hl] at hneed
    have hp : (read n field) c=ExceptT.mk (some (.error .Truncated)) := by
      rw [read,step_error hneed]
    have hq : (do return value (← Codec.take n) : Codec.Parser α) c=.error .Truncated := by
      simp only [bind,StateT.bind,take_eq,if_neg hl]
      rfl
    refine ⟨by rw [hp,hq],fun a c' h => ?_⟩
    rw [hq] at h
    cases h

theorem byteAt_eq {lo i : Nat} {c : Cursor} (hc : Inside lo c) (hi : c.pos+i < c.buf.length) :
    byteAt c i=some (c.buf[c.pos+i]) := by
  have hf := hc.fits
  rw [sliceLimit] at hf
  rw [byteAt,add_eq (by rw [wordLimit]; omega)]
  exact index_eq hi

theorem sliceAt_eq {lo n : Nat} {c : Cursor} (hc : Inside lo c) (h : c.pos+n ≤ c.buf.length) :
    sliceAt c n=some ((c.buf.drop c.pos).take n) := by
  have hf := hc.fits
  rw [sliceLimit] at hf
  rw [sliceAt,add_eq (by rw [wordLimit]; omega)]
  exact range_add h

/-- The bytes of a slice, one after the other. -/
theorem take_drop_succ (bs : Bytes) (i n : Nat) (h : i < bs.length) :
    (bs.drop i).take (n+1)=bs[i]::(bs.drop (i+1)).take n := by
  rw [List.drop_eq_getElem_cons h,List.take_succ_cons]

variable {lo : Nat}

theorem runs_u8r : Runs (Inside lo) u8r Codec.u8r (fun _ => Inside lo) := by
  refine @runs_read _ lo 1 _ (fun bs => bs.headD 0) (by decide) fun c hc h => ?_
  rw [take_drop_succ c.buf c.pos 0 h]
  exact index_eq h

theorem runs_u16be : Runs (Inside lo) u16be Codec.u16be (fun _ => Inside lo) := by
  refine @runs_read _ lo 2 _ (fun bs => UInt16.ofNat (beNat bs)) (by decide) fun c hc h => ?_
  rw [take_drop_succ c.buf c.pos 1 (by omega),take_drop_succ c.buf (c.pos+1) 0 (by omega),
    byteAt_eq hc (by omega),index_eq (by omega)]
  rfl

theorem runs_u32be : Runs (Inside lo) u32be Codec.u32be (fun _ => Inside lo) := by
  refine @runs_read _ lo 4 _ (fun bs => UInt32.ofNat (beNat bs)) (by decide) fun c hc h => ?_
  rw [take_drop_succ c.buf c.pos 3 (by omega),take_drop_succ c.buf (c.pos+1) 2 (by omega),
    take_drop_succ c.buf (c.pos+2) 1 (by omega),take_drop_succ c.buf (c.pos+3) 0 (by omega),
    byteAt_eq hc (by omega),byteAt_eq hc (by omega),byteAt_eq hc (by omega),index_eq (by omega)]
  rfl

theorem runs_u64be : Runs (Inside lo) u64be Codec.u64be (fun _ => Inside lo) := by
  refine @runs_read _ lo 8 _ be64 (by decide) fun c hc h => ?_
  have hl : ((c.buf.drop c.pos).take 8).length=8 := by
    rw [List.length_take,List.length_drop]
    omega
  rw [sliceAt_eq hc h]
  simp only [Option.bind_eq_bind,Option.bind_some]
  rw [copy_eq (by rw [List.length_replicate,hl])]
  rfl

theorem runs_take {n : Nat} (hn : n < 2^32) : Runs (Inside lo) (take n) (Codec.take n) (fun _ => Inside lo) := by
  have h := @runs_read _ lo n (fun c => sliceAt c n) (fun bs => bs) hn (fun c hc h => sliceAt_eq hc h)
  rw [bind_pure] at h
  exact h

theorem runs_oversize (b : Bool) : Runs (Inside lo) (oversize b) (Codec.oversize b) (fun _ => Inside lo) := by
  intro c hc
  cases b with
  | true =>
    refine ⟨rfl,fun a c' h => ?_⟩
    cases h
  | false =>
    refine ⟨rfl,fun a c' h => ?_⟩
    cases h
    exact hc

theorem runs_field16 (max : Nat) : Runs (Inside lo) (field16 max) (Codec.field16 max) (fun _ => Inside lo) := by
  refine runs_bind runs_u16be fun len => runs_bind (runs_oversize _) fun _ => runs_take ?_
  have hlen := len.toNat_lt
  omega

theorem runs_field32 (max : Nat) : Runs (Inside lo) (field32 max) (Codec.field32 max) (fun _ => Inside lo) :=
  runs_bind runs_u32be fun len => runs_bind (runs_oversize _) fun _ => runs_take len.toNat_lt

theorem runs_consumed : Runs (Inside lo) consumed Codec.consumed (fun _ => Inside lo) := by
  intro c hc
  refine ⟨?_,fun a c' h => ?_⟩
  · rw [consumed,step_get,checked,range_front hc.high]
    rfl
  · cases h
    exact hc

theorem runs_finish : Runs (Inside lo) finish Codec.finish (fun _ => Inside lo) := by
  intro c hc
  have hp : finish c=ExceptT.mk (some (if c.buf.drop c.pos=[] then .ok ((),c) else .error .TrailingBytes)) := by
    have hrest : rest c=ExceptT.mk (some (.ok (c.buf.drop c.pos,c))) := by
      rw [rest,step_get,checked,range_back hc.high]
      rfl
    rw [finish,step_ok hrest]
    split <;> rfl
  refine ⟨hp,fun a c' h => ?_⟩
  rw [Codec.finish] at h
  split at h
  · cases h
    exact hc
  · cases h

end Primitives

section Messages

theorem runs_envelope : Runs (Inside 0) envelope Codec.envelope (fun _ => Inside 0) := by
  refine runs_bind runs_u8r fun version => runs_bind (runs_take (by decide)) fun channelId =>
    runs_bind (runs_take (by decide)) fun sender => runs_bind runs_u64be fun seq =>
    runs_bind runs_u8r fun parentCount => runs_bind (runs_oversize _) fun _ =>
    runs_checked (fun _ _ => mul_eq ?_) (runs_bind (runs_take ?_) fun parents =>
    runs_bind runs_u64be fun ts => runs_bind runs_u8r fun bodyType => runs_bind runs_u32be fun bodyLen =>
    runs_bind (runs_oversize _) fun _ => runs_bind (runs_take bodyLen.toNat_lt) fun body =>
    runs_bind runs_consumed fun tbs => runs_bind (runs_take (by decide)) fun sig =>
    runs_bind runs_finish fun _ => runs_pure _)
  all_goals
    have hcount := parentCount.toNat_lt
    simp only [lenParent,wordLimit]
    omega

theorem runs_intent : Runs (Inside 0) intent Codec.intent (fun _ => Inside 0) :=
  runs_bind (runs_take (by decide)) fun _ => runs_bind (runs_field16 _) fun _ => runs_bind (runs_field32 _) fun _ =>
    runs_bind (runs_field16 _) fun _ => runs_bind runs_finish fun _ => runs_pure _

theorem runs_grant : Runs (Inside 0) grant Codec.grant (fun _ => Inside 0) :=
  runs_bind runs_u8r fun version => runs_bind (runs_take (by decide)) fun grantId =>
    runs_bind (runs_take (by decide)) fun intentId => runs_bind (runs_take (by decide)) fun approver =>
    runs_bind (runs_take (by decide)) fun subject => runs_bind (runs_take (by decide)) fun executor =>
    runs_bind (runs_field16 _) fun resourceId => runs_bind (runs_take (by decide)) fun actionDigest =>
    runs_bind runs_u64be fun notAfter => runs_bind runs_consumed fun tbs =>
    runs_bind (runs_take (by decide)) fun sig => runs_bind runs_finish fun _ => runs_pure _

theorem runs_refusal : Runs (Inside 0) refusal Codec.refusal (fun _ => Inside 0) :=
  runs_bind (runs_take (by decide)) fun intentId => runs_bind (runs_field16 _) fun note =>
    runs_bind runs_consumed fun tbs => runs_bind (runs_take (by decide)) fun sig =>
    runs_bind runs_finish fun _ => runs_pure _

theorem runs_ascends {lo : Nat} (prev : Option Bytes) (caKey : Bytes) :
    Runs (Inside lo) (ascends prev caKey) (Codec.ascends prev caKey) (fun _ => Inside lo) :=
  runs_ite (fun _ => runs_throw _ _) (fun _ => runs_pure _)

theorem runs_caSigs {lo : Nat} (n : Nat) (prev : Option Bytes) :
    Runs (Inside lo) (caSigs n prev) (Codec.caSigs n prev) (fun _ => Inside lo) := by
  induction n generalizing prev with
  | zero => exact runs_pure _
  | succ n ih =>
    rw [Codec.caSigs_succ]
    exact runs_bind (runs_take (by decide)) fun caKey => runs_bind (runs_ascends prev caKey) fun _ =>
      runs_bind (runs_take (by decide)) fun _ => ih (some caKey)

theorem runs_nonzero {lo : Nat} (count : UInt8) :
    Runs (Inside lo) (nonzero count) (Codec.nonzero count) (fun _ => Inside lo) :=
  runs_ite (fun _ => runs_throw _ _) (fun _ => runs_pure _)

/-- The test of the count, in the form that the parser has it. -/
theorem runs_nonzero_bind {lo : Nat} {α : Type} {count : UInt8} {p : Parser α} {q : Codec.Parser α}
    {J : α → Cursor → Prop} (h : Runs (Inside lo) p q J) :
    Runs (Inside lo) (do nonzero count; p)
      (if count=0 then (do let _ ← (throw .Malformed : Codec.Parser PUnit); q) else q) J := by
  have hb := Codec.nonzero_bind count (fun _ => q)
  rw [← hb]
  exact runs_bind (runs_nonzero count) fun _ => h

theorem runs_cert : Runs (Inside 0) cert Codec.cert (fun _ _ => True) := by
  refine runs_bind runs_u8r fun version => runs_bind runs_u8r fun roleBits =>
    runs_bind (runs_take (by decide)) fun sigPubkey => runs_bind (runs_take (by decide)) fun kexPubkey =>
    runs_bind runs_u64be fun notBefore => runs_bind runs_u64be fun notAfter =>
    runs_bind (runs_field16 _) fun name => runs_bind runs_u8r fun scopeCount =>
    runs_bind (runs_oversize _) fun _ => runs_checked (fun _ _ => mul_eq ?_) (runs_bind (runs_take ?_) fun scopeIds =>
    runs_bind runs_consumed fun tbs => runs_bind runs_u8r fun caSigCount =>
    runs_nonzero_bind (runs_bind (runs_oversize _) fun _ => runs_bind runs_get fun caStart => ?_))
  · have hcount := scopeCount.toNat_lt
    simp only [lenScopeId,wordLimit]
    omega
  · have hcount := scopeCount.toNat_lt
    simp only [lenScopeId]
    omega
  · -- from here on the cursor stands behind the place where the signatures start
    have hback : ∀c,(c=caStart ∧ Inside 0 c) → Inside caStart.pos c := by
      intro c hc
      exact ⟨Nat.le_of_eq (congrArg Cursor.pos hc.1).symm,hc.2.high,hc.2.fits⟩
    refine runs_bind (runs_mono (runs_caSigs _ _) hback (fun _ _ h => h)) fun _ => runs_bind runs_get fun caEnd => ?_
    refine runs_checked (a := (caEnd.buf.take caEnd.pos).drop caStart.pos) ?_ ?_
    · intro c hc
      rw [hc.1] at hc
      rw [range,if_pos ⟨hc.2.low,hc.2.high⟩,List.drop_take]
    · exact runs_mono (runs_bind runs_finish fun _ => runs_pure _) (fun c hc => hc.2) (fun _ _ _ => trivial)

variable {buf : Bytes}

theorem inside_start (h : buf.length < sliceLimit) : Inside 0 ⟨buf,0⟩ := ⟨le_rfl,Nat.zero_le _,h⟩

/-- No parser panics, whatever the bytes are. -/
theorem parseEnvelope_eq (h : buf.length < sliceLimit) : parseEnvelope buf=some (Codec.parseEnvelope buf) :=
  runFrom_eq runs_envelope (inside_start h)

theorem parseIntent_eq (h : buf.length < sliceLimit) : parseIntent buf=some (Codec.parseIntent buf) :=
  runFrom_eq runs_intent (inside_start h)

theorem parseGrant_eq (h : buf.length < sliceLimit) : parseGrant buf=some (Codec.parseGrant buf) :=
  runFrom_eq runs_grant (inside_start h)

theorem parseRefusal_eq (h : buf.length < sliceLimit) : parseRefusal buf=some (Codec.parseRefusal buf) :=
  runFrom_eq runs_refusal (inside_start h)

theorem parseCert_eq (h : buf.length < sliceLimit) : parseCert buf=some (Codec.parseCert buf) :=
  runFrom_eq runs_cert (inside_start h)

end Messages

section Parsed

variable {α : Type} {W : Codec.Wire α} {body : Codec.Parser α} {R : Codec.Format α} {buf : Bytes}

/-- What a parsed message signs is the front of it. -/
theorem recorded_le {tbs : α → Bytes} (h : W.Exact body R) (hs : ∀v,tbs (W.sealed v)=W.tbs v) {v : α}
    (hp : W.parse buf=.ok v) : (tbs v).length ≤ buf.length := by
  rw [h.recorded hs hp]
  obtain ⟨-,-,rfl⟩ := (h.accepts buf v).mp hp
  rw [W.split,List.length_append]
  exact Nat.le_add_right _ _

theorem parsedEnvelope_tbs {env : Envelope} (h : Codec.parseEnvelope buf=.ok env) : env.tbs.length ≤ buf.length := by
  obtain ⟨_,_,hx⟩ := Codec.envelope_exact
  exact recorded_le hx (fun _ => rfl) h

theorem parsedEnvelope_body {env : Envelope} (h : Codec.parseEnvelope buf=.ok env) :
    env.body.length ≤ env.tbs.length := by
  obtain ⟨_,_,hx⟩ := Codec.envelope_exact
  have hs : env.tbs=Codec.tbsOfEnvelope env := hx.recorded (fun _ => rfl) h
  rw [hs]
  simp only [Codec.tbsOfEnvelope,Codec.pushField32,List.length_append]
  omega

theorem parsedGrant_tbs {grant : Grant} (h : Codec.parseGrant buf=.ok grant) : grant.tbs.length ≤ buf.length := by
  obtain ⟨_,_,hx⟩ := Codec.grant_exact
  exact recorded_le hx (fun _ => rfl) h

theorem parsedRefusal_tbs {refusal : Refusal} (h : Codec.parseRefusal buf=.ok refusal) :
    refusal.tbs.length ≤ buf.length := by
  obtain ⟨_,_,hx⟩ := Codec.refusal_exact
  exact recorded_le hx (fun _ => rfl) h

theorem parsedCert_tbs {cert : Cert} (h : Codec.parseCert buf=.ok cert) : cert.tbs.length ≤ buf.length := by
  obtain ⟨_,_,hx⟩ := Codec.cert_exact
  exact recorded_le hx (fun _ => rfl) h

theorem parsedCert_length {cert : Cert} (h : Codec.parseCert buf=.ok cert) : buf.length < sliceLimit := by
  obtain ⟨_,_,hx⟩ := Codec.cert_exact
  obtain ⟨⟨⟨hsig,hkex,hname,-,hscopes⟩,-,-,hpairs,-⟩,-,rfl⟩ := (hx.accepts buf cert).mp h
  have hcount := cert.scopeCount.toNat_lt
  have hsigs := cert.caSigCount.toNat_lt
  have hscope : lenScopeId=8 := rfl
  have hpair : lenCaKey+lenSig=96 := rfl
  have hkey : lenPubkey=32 := rfl
  have hmax : maxName ≤ 2^16 := by decide
  have hwire : (Codec.certWire.encode cert).length=(Codec.encodeCert cert).length := rfl
  rw [hscope] at hscopes
  rw [hpair] at hpairs
  rw [hwire,Codec.encodeCert_eq,Codec.tbsOfCert,Codec.pushField16,sliceLimit]
  simp only [List.length_append,List.length_singleton,put64_length,beBytes_length]
  omega

end Parsed

end Bolina.Checked
