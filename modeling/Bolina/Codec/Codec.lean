import Bolina.Framework.FixedBytes

namespace Bolina.Codec

open BigEndian

def maxMessage : Nat := 1<<<20
def lenPubkey : Nat := 32
def lenSig : Nat := 64
def maxHeader : Nat := 512
def maxBody : Nat := maxMessage-maxHeader
def maxParents : UInt8 := 4
def maxResource : Nat := 256
def maxAction : Nat := 256*1024
def maxRationale : Nat := 4*1024
def maxNote : Nat := 1024
def maxName : Nat := 64
def maxScope : UInt8 := 8
def maxCaSigs : UInt8 := 4
def lenChannelId : Nat := 32
def lenParent : Nat := 32
def lenIntentId : Nat := 16
def lenGrantId : Nat := 16
def lenActionDigest : Nat := 32
def lenScopeId : Nat := 8
def lenCaKey : Nat := 32
def lenSpanId : Nat := 16
def lenTraceId : Nat := 16
def lenOrigin : Nat := 32
def lenDigest : Nat := 32

def domainEnvelope : UInt8 := 0x02
def domainSpan : UInt8 := 0x03
def domainGrant : UInt8 := 0x04
def domainRefusal : UInt8 := 0x06

def bodyUtterance : UInt8 := 1
def bodyIntent : UInt8 := 2
def bodyGrant : UInt8 := 3
def bodyEffect : UInt8 := 4
def bodyControl : UInt8 := 5
def bodyRefusal : UInt8 := 6

def roleAgent : UInt8 := (1 : UInt8)<<<1
def roleApprover : UInt8 := (1 : UInt8)<<<3

inductive ParseError where
  | Truncated
  | Oversize
  | TrailingBytes
  | Malformed
  deriving DecidableEq,Repr

structure Cursor where
  buf : Bytes
  pos : Nat
  deriving DecidableEq

/-- A step of a parser: it may fail, and it moves the cursor. -/
abbrev Parser := StateT Cursor (Except ParseError)

/-- The one place where a parser finds its input too short. -/
def need (n : Nat) : Parser Unit := fun c =>
  if c.pos+n ≤ c.buf.length then .ok ((),c) else .error .Truncated

def take (n : Nat) : Parser Bytes := do
  need n
  let c ← get
  set { c with pos := c.pos+n }
  return (c.buf.drop c.pos).take n

def u8r : Parser UInt8 := do return (← take 1).headD 0

def u16be : Parser UInt16 := do return UInt16.ofNat (beNat (← take 2))

def u32be : Parser UInt32 := do return UInt32.ofNat (beNat (← take 4))

def u64be : Parser UInt64 := do return be64 (← take 8)

def oversize (b : Bool) : Parser Unit := fun c => if b then .error .Oversize else .ok ((),c)

/-- A field with a 16-bit length in front; its bound is checked before it is read. -/
def field16 (max : Nat) : Parser Bytes := do
  let len ← u16be
  oversize (max<len.toNat)
  take len.toNat

def field32 (max : Nat) : Parser Bytes := do
  let len ← u32be
  oversize (max<len.toNat)
  take len.toNat

/-- Everything read so far: the bytes a signature is over. -/
def consumed : Parser Bytes := do
  let c ← get
  return c.buf.take c.pos

/-- Nothing may follow the one message of a buffer. -/
def finish : Parser Unit := fun c =>
  if c.buf.drop c.pos=[] then .ok ((),c) else .error .TrailingBytes

structure Envelope where
  version : UInt8
  channelId : Bytes
  sender : Bytes
  seq : UInt64
  parentCount : UInt8
  parents : Bytes
  ts : UInt64
  bodyType : UInt8
  body : Bytes
  tbs : Bytes
  sig : Bytes
  deriving DecidableEq

structure Intent where
  intentId : Bytes
  resourceId : Bytes
  action : Bytes
  rationale : Bytes
  deriving DecidableEq

structure Grant where
  version : UInt8
  grantId : Bytes
  intentId : Bytes
  approver : Bytes
  subject : Bytes
  executor : Bytes
  resourceId : Bytes
  actionDigest : Bytes
  notAfter : UInt64
  tbs : Bytes
  sig : Bytes
  deriving DecidableEq

structure Refusal where
  intentId : Bytes
  note : Bytes
  tbs : Bytes
  sig : Bytes
  deriving DecidableEq

structure Span where
  version : UInt8
  spanId : Bytes
  traceId : Bytes
  resourceId : Bytes
  methodId : UInt8
  volatility : UInt8
  origin : Bytes
  observedAt : UInt64
  digest : Bytes
  executor : Bytes
  tbs : Bytes
  sig : Bytes
  deriving DecidableEq

structure Cert where
  version : UInt8
  roleBits : UInt8
  sigPubkey : Bytes
  kexPubkey : Bytes
  notBefore : UInt64
  notAfter : UInt64
  name : Bytes
  scopeCount : UInt8
  scopeIds : Bytes
  caSigCount : UInt8
  caSigs : Bytes
  tbs : Bytes
  deriving DecidableEq

def envelope : Parser Envelope := do
  let version ← u8r
  let channelId ← take lenChannelId
  let sender ← take lenPubkey
  let seq ← u64be
  let parentCount ← u8r
  oversize (maxParents<parentCount)
  let parents ← take (parentCount.toNat*lenParent)
  let ts ← u64be
  let bodyType ← u8r
  let bodyLen ← u32be
  oversize (maxBody<bodyLen.toNat)
  let body ← take bodyLen.toNat
  let tbs ← consumed
  let sig ← take lenSig
  finish
  return { version,channelId,sender,seq,parentCount,parents,ts,bodyType,body,tbs,sig }

def intent : Parser Intent := do
  let intentId ← take lenIntentId
  let resourceId ← field16 maxResource
  let action ← field32 maxAction
  let rationale ← field16 maxRationale
  finish
  return { intentId,resourceId,action,rationale }

def grant : Parser Grant := do
  let version ← u8r
  let grantId ← take lenGrantId
  let intentId ← take lenIntentId
  let approver ← take lenPubkey
  let subject ← take lenPubkey
  let executor ← take lenPubkey
  let resourceId ← field16 maxResource
  let actionDigest ← take lenActionDigest
  let notAfter ← u64be
  let tbs ← consumed
  let sig ← take lenSig
  finish
  return { version,grantId,intentId,approver,subject,executor,resourceId,actionDigest,notAfter,tbs,sig }

def refusal : Parser Refusal := do
  let intentId ← take lenIntentId
  let note ← field16 maxNote
  let tbs ← consumed
  let sig ← take lenSig
  finish
  return { intentId,note,tbs,sig }

def span : Parser Span := do
  let version ← u8r
  let spanId ← take lenSpanId
  let traceId ← take lenTraceId
  let resourceId ← field16 maxResource
  let methodId ← u8r
  let volatility ← u8r
  let origin ← take lenOrigin
  let observedAt ← u64be
  let digest ← take lenDigest
  let executor ← take lenPubkey
  let tbs ← consumed
  let sig ← take lenSig
  finish
  return { version,spanId,traceId,resourceId,methodId,volatility,origin,observedAt,digest,executor,tbs,sig }

/-- The CA signatures: `n` of them are left, and `prev` is the key before them. -/
def caSigs : Nat → Option Bytes → Parser Unit
  | 0,_ => return ()
  | n+1,prev => do
    let caKey ← take lenCaKey
    match prev with
    | some k => if caKey ≤ k then throw .Malformed
    | none => pure ()
    let _ ← take lenSig
    caSigs n (some caKey)

def cert : Parser Cert := do
  let version ← u8r
  let roleBits ← u8r
  let sigPubkey ← take lenPubkey
  let kexPubkey ← take lenPubkey
  let notBefore ← u64be
  let notAfter ← u64be
  let name ← field16 maxName
  let scopeCount ← u8r
  oversize (maxScope<scopeCount)
  let scopeIds ← take (scopeCount.toNat*lenScopeId)
  let tbs ← consumed
  let caSigCount ← u8r
  if caSigCount=0 then throw .Malformed
  oversize (maxCaSigs<caSigCount)
  let caStart ← get
  caSigs caSigCount.toNat none
  let caEnd ← get
  finish
  return { version,roleBits,sigPubkey,kexPubkey,notBefore,notAfter,name,scopeCount,scopeIds,caSigCount,
           caSigs := (caEnd.buf.take caEnd.pos).drop caStart.pos,tbs }

def parseEnvelope (buf : Bytes) : Except ParseError Envelope := envelope.run' ⟨buf,0⟩
def parseIntent (buf : Bytes) : Except ParseError Intent := intent.run' ⟨buf,0⟩
def parseGrant (buf : Bytes) : Except ParseError Grant := grant.run' ⟨buf,0⟩
def parseRefusal (buf : Bytes) : Except ParseError Refusal := refusal.run' ⟨buf,0⟩
def parseSpan (buf : Bytes) : Except ParseError Span := span.run' ⟨buf,0⟩
def parseCert (buf : Bytes) : Except ParseError Cert := cert.run' ⟨buf,0⟩

def pushField16 (v : Bytes) : Bytes := beBytes 2 v.length++v
def pushField32 (v : Bytes) : Bytes := beBytes 4 v.length++v

def encodeEnvelope (e : Envelope) : Bytes :=
  [e.version]++e.channelId++e.sender++put64 e.seq++[e.parentCount]++e.parents++put64 e.ts++
    [e.bodyType]++pushField32 e.body++e.sig

def encodeIntent (i : Intent) : Bytes :=
  i.intentId++pushField16 i.resourceId++pushField32 i.action++pushField16 i.rationale

def encodeGrant (g : Grant) : Bytes :=
  [g.version]++g.grantId++g.intentId++g.approver++g.subject++g.executor++pushField16 g.resourceId++
    g.actionDigest++put64 g.notAfter++g.sig

def encodeRefusal (r : Refusal) : Bytes := r.intentId++pushField16 r.note++r.sig

def encodeSpan (s : Span) : Bytes :=
  [s.version]++s.spanId++s.traceId++pushField16 s.resourceId++[s.methodId]++[s.volatility]++s.origin++
    put64 s.observedAt++s.digest++s.executor++s.sig

def encodeCert (c : Cert) : Bytes :=
  [c.version,c.roleBits]++c.sigPubkey++c.kexPubkey++put64 c.notBefore++put64 c.notAfter++
    pushField16 c.name++[c.scopeCount]++c.scopeIds++[c.caSigCount]++c.caSigs

/-- The primitives the code takes from its crypto crates. `ed25519 key message sig`
answers false for a key that is no curve point. -/
structure Crypto where
  blake2s : Bytes → FixedBytes 32
  ed25519 : Bytes → Bytes → Bytes → Bool

def verifySigned (K : Crypto) (domainTag : UInt8) (tbs sig signer : Bytes) : Bool :=
  signer.length==lenPubkey && sig.length==lenSig && K.ed25519 signer (domainTag::tbs) sig

/-- Peels a parser that has succeeded into its steps. -/
theorem bind_ok {α β : Type} (x : Parser α) (f : α → Parser β) (c : Cursor) (r : β × Cursor)
    (h : (x>>=f) c=.ok r) : ∃a c',x c=.ok (a,c') ∧ f a c'=.ok r := by
  cases hx : x c with
  | error e =>
    simp only [bind,StateT.bind,hx] at h
    cases h
  | ok ac =>
    simp only [bind,StateT.bind,hx] at h
    exact ⟨ac.1,ac.2,rfl,h⟩

theorem run_ok {α : Type} (x : Parser α) (c : Cursor) (a : α) (h : x.run' c=.ok a) :
    ∃c',x c=.ok (a,c') := by
  cases hx : x c with
  | error e =>
    simp only [StateT.run',hx] at h
    cases h
  | ok ac =>
    simp only [StateT.run',hx] at h
    cases h
    exact ⟨ac.2,rfl⟩

/-- A fixed-width field has its width. -/
theorem take_length (n : Nat) (c c' : Cursor) (bs : Bytes) (h : take n c=.ok (bs,c')) : bs.length=n := by
  obtain ⟨_,c₁,hn,h⟩ := bind_ok _ _ _ _ h
  rw [need] at hn
  split at hn
  · cases hn
    cases h
    simp only [List.length_take,List.length_drop]
    omega
  · cases hn

/-- The fixed fields of a parsed grant have their widths. -/
theorem parseGrant_widths (buf : Bytes) (g : Grant) (h : parseGrant buf=.ok g) :
    g.grantId.length=lenGrantId ∧ g.intentId.length=lenIntentId := by
  obtain ⟨c,h⟩ := run_ok _ _ _ h
  obtain ⟨_,_,_,h⟩ := bind_ok _ _ _ _ h
  obtain ⟨grantId,_,hg,h⟩ := bind_ok _ _ _ _ h
  obtain ⟨intentId,_,hi,h⟩ := bind_ok _ _ _ _ h
  iterate 9 obtain ⟨_,_,_,h⟩ := bind_ok _ _ _ _ h
  cases h
  exact ⟨take_length _ _ _ _ hg,take_length _ _ _ _ hi⟩

end Bolina.Codec
