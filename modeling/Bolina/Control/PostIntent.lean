import Bolina.Control.ControlApi
import Bolina.Transport.ResolverSet

namespace Bolina.Control

open Codec Intent Transport

def bodyMax : Nat := 4096
def idHexLen : Nat := 64
def subjHexLen : Nat := 64

inductive ApiError where
  | BadRequest
  | NotFound
  | MethodNotAllowed
  | UnsupportedMediaType
  | UnprocessableIntent
  | Resolve (e : ResolveError)
  | Intent (e : IntentError)
  deriving DecidableEq,Repr

/-- The errors of the intent table come out of the resolver's as their own. -/
def ApiError.ofResolve : ResolveError → ApiError
  | .MalformedCanonical => .Resolve .MalformedCanonical
  | .SetFull => .Resolve .SetFull
  | .AliasPoolFull => .Resolve .AliasPoolFull
  | .DuplicateEntry => .Resolve .DuplicateEntry
  | .UnknownResource => .Resolve .UnknownResource
  | .AmbiguousResource => .Resolve .AmbiguousResource
  | .ForeignExecutor => .Resolve .ForeignExecutor
  | .BufferTooSmall => .Resolve .BufferTooSmall
  | .Intent e => .Intent e

inductive IntentOutcome where
  | Accepted
  | AcceptedIdempotent
  deriving DecidableEq,Repr

/-- The counter of the source has 64 bits; no run counts that far. -/
structure Metrics where
  admittedTotal : Nat
  deriving DecidableEq

/-- The bytes of a text. -/
def utf8 (s : List Char) : Bytes := s.flatMap String.utf8EncodeChar

/-- The characters with the Unicode property `White_Space`. -/
def isWhitespace (c : Char) : Bool :=
  let n := c.toNat
  decide ((9 ≤ n ∧ n≤13) ∨ n=0x20 ∨ n=0x85 ∨ n=0xa0 ∨ n=0x1680 ∨ (0x2000 ≤ n ∧ n≤0x200a) ∨
    n=0x2028 ∨ n=0x2029 ∨ n=0x202f ∨ n=0x205f ∨ n=0x3000)

def trimStart (s : List Char) : List Char := s.dropWhile isWhitespace

def stripPrefix (c : Char) : List Char → Option (List Char)
  | [] => none
  | x::xs => if x=c then some xs else none

/-- What follows the first occurrence of `needle`. -/
def afterFirst (needle : List Char) : List Char → Option (List Char)
  | [] => if needle=[] then some [] else none
  | c::cs => if needle.isPrefixOf (c::cs) then some ((c::cs).drop needle.length) else afterFirst needle cs

def quote : Char := Char.ofNat 0x22
def colon : Char := Char.ofNat 0x3a

/-- The first match of a quoted key decides, wherever in the body it stands; the value
ends at the next quote. -/
def flatJsonGet (body key : List Char) : Option (List Char) := do
  let rest ← afterFirst (quote::key++[quote]) body
  let rest ← stripPrefix colon (trimStart rest)
  let rest ← stripPrefix quote (trimStart rest)
  if quote∈rest then some (rest.takeWhile (fun c => c≠quote)) else none

def isHexDigit (c : Char) : Bool :=
  let n := c.toNat
  decide ((0x30 ≤ n ∧ n≤0x39) ∨ (0x61 ≤ n ∧ n≤0x66) ∨ (0x41 ≤ n ∧ n≤0x46))

def isHex (s : List Char) : Bool := decide (s≠[]) && s.all isHexDigit

def hexValue (c : Char) : Nat :=
  let n := c.toNat
  if n≤0x39 then n-0x30 else if 0x61 ≤ n then n-0x57 else n-0x37

/-- The bytes of a text of hexadecimal digits. -/
def hexBytes : List Char → Bytes
  | hi::lo::rest => UInt8.ofNat (16*hexValue hi+hexValue lo)::hexBytes rest
  | _ => []

def parseIdHex (hex : List Char) : Option Bytes :=
  if (utf8 hex).length≠idHexLen ∨ isHex hex=false then none else some (hexBytes hex)

def idKey : List Char := ['i','d']
def resourceKey : List Char := ['r','e','s','o','u','r','c','e']
def actionKey : List Char := ['a','c','t','i','o','n']
def rationaleKey : List Char := ['r','a','t','i','o','n','a','l','e']
def subjectKey : List Char := ['s','u','b','j','e','c','t']

/-- What a body asks for. -/
structure Posted where
  intentId : FixedBytes 16
  resource : Bytes
  action : Bytes
  subject : List Char
  deriving DecidableEq

/-- Every failure on the way is the same `BadRequest`. -/
def readPosted (body : List Char) : Option Posted := do
  guard ((utf8 body).length ≤ bodyMax)
  let id ← flatJsonGet body idKey
  let resource ← flatJsonGet body resourceKey
  let action ← flatJsonGet body actionKey
  guard (action≠[] ∧ (utf8 action).length ≤ maxAction)
  let _ ← flatJsonGet body rationaleKey
  let subject ← flatJsonGet body subjectKey
  guard ((utf8 subject).length=subjHexLen ∧ isHex subject=true)
  let idBytes ← parseIdHex id
  return ⟨fixed 16 (idBytes.take lenIntentId),utf8 resource,utf8 action,subject⟩

/-- The intent goes to its table; its action and its subject are dropped. -/
def postIntent (body : List Char) (resolver : Resolver) (intentTable : Table) (metrics : Metrics)
    (ring : EventRing) (nowMs : UInt64) : Except ApiError IntentOutcome × Table × Metrics × EventRing :=
  match readPosted body with
  | none => (.error .BadRequest,intentTable,metrics,ring)
  | some p =>
    match resolver.resolveAndAdmit intentTable p.intentId p.resource nowMs with
    | (.ok _,table) => (.ok .Accepted,table,⟨metrics.admittedTotal+1⟩,ring.publish .IntentAdmitted)
    | (.error e,table) =>
      if e=.Intent .DuplicateIntentId then (.ok .AcceptedIdempotent,table,metrics,ring)
      else (.error (.ofResolve e),table,metrics,ring)

/-- An accepted intent has been admitted to the table, and nothing else has been done
with it but count it. -/
theorem postIntent_accepted (body : List Char) (resolver : Resolver) (intentTable : Table) (metrics : Metrics)
    (ring : EventRing) (nowMs : UInt64)
    (h : (postIntent body resolver intentTable metrics ring nowMs).1=.ok .Accepted) :
    ∃p canonical,readPosted body=some p ∧
      Admissible resolver intentTable p.intentId p.resource canonical ∧
      (postIntent body resolver intentTable metrics ring nowMs).2.1=
        (resolver.resolveAndAdmit intentTable p.intentId p.resource nowMs).2 := by
  rw [postIntent] at h ⊢
  cases hp : readPosted body with
  | none =>
    rw [hp] at h
    cases h
  | some p =>
    rw [hp] at h
    simp only at h ⊢
    by_cases ha : ∃canonical,Admissible resolver intentTable p.intentId p.resource canonical
    · obtain ⟨canonical,ha⟩ := ha
      obtain ⟨hok,_⟩ := resolveAndAdmit_of_admissible nowMs ha
      refine ⟨p,canonical,rfl,ha,?_⟩
      cases hr : resolver.resolveAndAdmit intentTable p.intentId p.resource nowMs with
      | mk res table =>
        rw [hr] at hok
        cases res with
        | error e => cases hok
        | ok _ => rfl
    · obtain ⟨e,he⟩ := resolveAndAdmit_of_not_admissible nowMs (fun c hc => ha ⟨c,hc⟩)
      rw [he] at h
      simp only at h
      split_ifs at h
      cases h

/-- What a post can do, with the reason for it. -/
inductive Posting (body : List Char) (resolver : Resolver) (t : Table) (metrics : Metrics) (ring : EventRing)
    (nowMs : UInt64) : Except ApiError IntentOutcome × Table × Metrics × EventRing → Prop where
  | accepted (p : Posted) (canonical : Bytes) (hp : readPosted body=some p)
      (ha : Admissible resolver t p.intentId p.resource canonical) (t' : Table)
      (ht : t'.entries=t.entries++[admittedEntry p.intentId canonical ha.fits nowMs]) :
      Posting body resolver t metrics ring nowMs
        (.ok .Accepted,t',⟨metrics.admittedTotal+1⟩,ring.publish .IntentAdmitted)
  | idempotent (p : Posted) (canonical : Bytes) (hp : readPosted body=some p)
      (hr : resolver.resolve p.resource=.ok canonical) (hfits : canonical.length ≤ maxResource)
      (hdup : t.entries.any (Entry.pendingFor p.intentId)=true) :
      Posting body resolver t metrics ring nowMs (.ok .AcceptedIdempotent,t,metrics,ring)
  | refused (e : ApiError) (hnew : ∀p canonical,readPosted body=some p → resolver.resolve p.resource=.ok canonical →
      canonical.length ≤ maxResource → t.entries.any (Entry.pendingFor p.intentId)=false ∧
        ¬t.Takes p.intentId canonical) :
      Posting body resolver t metrics ring nowMs (.error e,t,metrics,ring)

theorem postIntent_posting (body : List Char) (resolver : Resolver) (t : Table) (metrics : Metrics)
    (ring : EventRing) (nowMs : UInt64) :
    Posting body resolver t metrics ring nowMs (postIntent body resolver t metrics ring nowMs) := by
  rw [postIntent]
  cases hp : readPosted body with
  | none =>
    refine .refused _ (fun p canonical hq _ _ => ?_)
    rw [hp] at hq
    cases hq
  | some p =>
    by_cases ha : ∃canonical,Admissible resolver t p.intentId p.resource canonical
    · obtain ⟨canonical,ha⟩ := ha
      obtain ⟨hok,ht⟩ := resolveAndAdmit_of_admissible nowMs ha
      cases hr : resolver.resolveAndAdmit t p.intentId p.resource nowMs with
      | mk res t' =>
        rw [hr] at hok ht
        cases hok
        simp only [hr]
        exact .accepted p canonical hp ha t' ht
    · obtain ⟨e,he⟩ := resolveAndAdmit_of_not_admissible nowMs (fun c hc => ha ⟨c,hc⟩)
      simp only [he]
      have hiff := resolveAndAdmit_intent_iff resolver t p.intentId p.resource nowMs .DuplicateIntentId
      rw [he,Except.error.injEq] at hiff
      by_cases hdup : e=.Intent .DuplicateIntentId
      · obtain ⟨canonical,hr,hfits,herr⟩ := hiff.mp hdup
        rw [if_pos hdup]
        refine .idempotent p canonical hp hr hfits ?_
        by_contra hany
        rw [admitError_of_free _ _ _ (Bool.not_eq_true _ ▸ hany)] at herr
        split_ifs at herr <;> cases herr
      · rw [if_neg hdup]
        refine .refused _ (fun q canonical hq hr hfits => ?_)
        rw [hp] at hq
        cases hq
        refine ⟨?_,fun htakes => ha ⟨canonical,hr,hfits,htakes⟩⟩
        rw [Bool.eq_false_iff]
        intro hany
        exact hdup (hiff.mpr ⟨canonical,hr,hfits,by rw [ Table.admitError,if_pos hany]⟩)

/-- A quoted key with its quoted value. -/
def jsonField (key value : List Char) : List Char :=
  quote::(key++quote::colon::quote::(value++[quote]))

def asciiText (bs : Bytes) : List Char := bs.map (fun b => Char.ofNat b.toNat)

def hexText (bs : Bytes) : List Char :=
  asciiText (bs.flatMap (fun b : UInt8 => [hexDigit (b>>>(4 : UInt8)),hexDigit (b&&&(0x0f : UInt8))]))

/-- A post of the peer, under an id of one repeated digit. -/
def intentBody (digit : Char) : List Char :=
  let fields := [jsonField idKey (List.replicate idHexLen digit),jsonField resourceKey (asciiText sampleResource),
    jsonField actionKey (asciiText sampleAction),jsonField rationaleKey [],
    jsonField subjectKey (hexText peerKey)]
  Char.ofNat 0x7b::(List.intercalate [','] fields++[Char.ofNat 0x7d])

end Bolina.Control
