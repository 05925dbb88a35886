import Bolina.State.Intent

namespace Bolina.Transport

open Codec Intent

def fpBytes : Nat := 8
def fpHexLen : Nat := 16
def nsMax : Nat := 32
def pathMax : Nat := 180
def idMax : Nat := 4+fpHexLen+1+nsMax+1+pathMax
def maxResources : Nat := 32

inductive ResolveError where
  | MalformedCanonical
  | SetFull
  | AliasPoolFull
  | DuplicateEntry
  | UnknownResource
  | AmbiguousResource
  | ForeignExecutor
  | BufferTooSmall
  | Intent (e : IntentError)
  deriving DecidableEq,Repr

/-- An alternative spelling of the entry at index `entry`. -/
structure Alias where
  bytes : Bytes
  entry : Nat
  deriving DecidableEq

def hexDigit (b : UInt8) : UInt8 := if b<10 then 0x30+b else 0x57+b

/-- The first bytes of the key's digest, in lowercase hex. -/
def executorFp (K : Crypto) (sigPubkey : Bytes) : Bytes :=
  ((K.blake2s sigPubkey).toList.take fpBytes).flatMap
    (fun b : UInt8 => [hexDigit (b>>>(4 : UInt8)),hexDigit (b&&&(0x0f : UInt8))])

/-- The declared resources: canonical forms and aliases, in order of declaration. -/
structure Resolver where
  ownFp : Bytes
  entries : List Bytes
  aliases : List Alias
  deriving DecidableEq

def Resolver.new (K : Crypto) (sigPubkey : Bytes) : Resolver := ⟨executorFp K sigPubkey,[],[]⟩

def slash : UInt8 := 0x2f

def isHexLower (c : UInt8) : Bool := decide ((0x30 ≤ c ∧ c≤0x39) ∨ (0x61 ≤ c ∧ c≤0x66))

def isNsChar (c : UInt8) : Bool := decide ((0x61 ≤ c ∧ c≤0x7a) ∨ (0x30 ≤ c ∧ c≤0x39) ∨ c=0x2d)

def isPathChar (c : UInt8) : Bool := isNsChar c || c==0x2e || c==0x5f

def segLenInvalid (segLen dots : Nat) : Bool := decide (segLen=0 ∨ (dots=segLen ∧ segLen≤2))

/-- The loop over the path: the length of the segment so far and the dots in it. -/
def pathLoop : Bytes → Nat → Nat → Bool
  | [],segLen,dots => !segLenInvalid segLen dots
  | c::rest,segLen,dots =>
    if isPathChar c=false ∧ c≠slash then false
    else if c=slash then
      if segLenInvalid segLen dots then false else pathLoop rest 0 0
    else pathLoop rest (segLen+1) (if c=0x2e then dots+1 else dots)

/-- "bol:", the fingerprint, a namespace and a path, with slashes between them. -/
def validateCanonical (id : Bytes) : Bool :=
  if id.length < 4+fpHexLen+3 then false
  else if id.take 4≠[0x62,0x6f,0x6c,0x3a] then false
  else if ((id.drop 4).take fpHexLen).all isHexLower=false then false
  else
    match id.drop (4+fpHexLen) with
    | [] => false
    | c::rest =>
      if c≠slash then false
      else
        let ns := rest.takeWhile (fun c => c≠slash)
        if ns.all isNsChar=false then false
        else if ns.length < 1 ∨ nsMax < ns.length then false
        else
          match rest.dropWhile (fun c => c≠slash) with
          | [] => false
          | _::path =>
            if pathLoop path 0 0=false then false else decide (1 ≤ path.length ∧ path.length ≤ pathMax)

def Resolver.add (r : Resolver) (canonical : Bytes) : Except ResolveError Unit × Resolver :=
  if validateCanonical canonical=false then (.error .MalformedCanonical,r)
  else if idMax < canonical.length then (.error .MalformedCanonical,r)
  else if r.entries.length=maxResources then (.error .SetFull,r)
  else if canonical∈r.entries then (.error .DuplicateEntry,r)
  else (.ok (),{ r with entries := r.entries++[canonical] })

def Resolver.aliasHits (r : Resolver) (entryIdx : Nat) (proposed : Bytes) : Bool :=
  r.aliases.any (fun a => a.entry==entryIdx && a.bytes==proposed)

/-- The loop of `resolve` over the entries and their indices. -/
def Resolver.resolveLoop (r : Resolver) (proposed : Bytes) :
    List (Bytes × Nat) → Option Nat → Except ResolveError (Option Nat)
  | [],found => .ok found
  | (canonical,i)::rest,found =>
    if canonical=proposed ∨ r.aliasHits i proposed then
      match found with
      | some f => if f≠i then .error .AmbiguousResource else r.resolveLoop proposed rest found
      | none => r.resolveLoop proposed rest (some i)
    else r.resolveLoop proposed rest found

def Resolver.resolve (r : Resolver) (proposed : Bytes) : Except ResolveError Bytes :=
  match r.resolveLoop proposed r.entries.zipIdx none with
  | .error e => .error e
  | .ok none => .error .UnknownResource
  | .ok (some idx) =>
    let c := r.entries.getD idx []
    if (c.drop 4).take fpHexLen≠r.ownFp then .error .ForeignExecutor else .ok c

def Resolver.resolveAndAdmit (r : Resolver) (table : Table) (intentId : FixedBytes 16)
    (resourceId : Bytes) (nowMs : UInt64) : Except ResolveError Unit × Table :=
  match r.resolve resourceId with
  | .error e => (.error e,table)
  | .ok canonical =>
    if h : maxResource<canonical.length then (.error .MalformedCanonical,table)
    else
      match table.admit intentId (fixed 256 canonical) canonical.length (Nat.le_of_not_lt h) nowMs with
      | (.error e,table') => (.error (.Intent e),table')
      | (.ok _,table') => (.ok (),table')

end Bolina.Transport
