import Bolina.Codec.CertFormat
import Bolina.Transport.Binding
import Bolina.Transport.Resolver
import Mathlib.Logic.Function.Basic

namespace Bolina.Ca

open BigEndian Codec
open Transport (hexDigit)

def domainCert : UInt8 := 0x01
def keyLen : Nat := 32
def maxPrivilegedLifetimeMs : Nat := 30*24*3600*1000

inductive CaError where
  | BadRole
  | BadTtl
  | BadCount
  | NoCaKeys
  | TtlOverCap
  | CertUnreadable
  | DataDirUnwritable
  deriving DecidableEq,Repr

/-- The signing keys of the ed25519 crate, by their seeds. -/
structure Signer where
  verifyingKey : FixedBytes 32 → FixedBytes 32
  sign : FixedBytes 32 → Bytes → FixedBytes 64

/-- The files under `ca/`: the two halves of each key, and what is issued, by serial. -/
structure CaDir where
  sig : Nat → Option Bytes
  pub : Nat → Option Bytes
  issued : Bytes → Option Bytes

/-- How a write of a file ends; one that fails leaves what it leaves. -/
inductive WriteOutcome where
  | written
  | failed (left : Option Bytes)

def WriteOutcome.leaves (o : WriteOutcome) (content : Bytes) : Option Bytes :=
  match o with
  | .written => some content
  | .failed left => left

def WriteOutcome.ok : WriteOutcome → Bool
  | .written => true
  | .failed _ => false

def serialOf (K : Crypto) (tbs : Bytes) : FixedBytes 32 :=
  fixed 32 (((K.blake2s tbs).toList.take 16).flatMap
    (fun b : UInt8 => [hexDigit (b>>>(4 : UInt8)),hexDigit (b&&&(0x0f : UInt8))]))

/-- What the system answers while keys are written. -/
structure InitIo where
  createDirs : Bool
  sig : Nat → WriteOutcome
  pub : Nat → WriteOutcome

def caInitLoop (S : Signer) (seed : Nat → FixedBytes 32) (io : InitIo) :
    List Nat → CaDir → Except CaError Unit × CaDir
  | [],d => (.ok (),d)
  | i::rest,d =>
    let d' := { d with sig := Function.update d.sig i ((io.sig i).leaves (seed i).toList) }
    if (io.sig i).ok=false then (.error .DataDirUnwritable,d')
    else
      let d'' := { d' with
        pub := Function.update d'.pub i ((io.pub i).leaves (S.verifyingKey (seed i)).toList) }
      if (io.pub i).ok=false then (.error .DataDirUnwritable,d'')
      else caInitLoop S seed io rest d''

def caInit (S : Signer) (d : CaDir) (count : Nat) (seed : Nat → FixedBytes 32) (io : InitIo) :
    Except CaError Unit × CaDir :=
  if count=0 ∨ 8 < count then (.error .BadCount,d)
  else if io.createDirs=false then (.error .DataDirUnwritable,d)
  else caInitLoop S seed io (List.range count) d

/-- `subject` is the name as bytes. -/
structure IssueReq where
  role : String
  subject : Bytes
  scopes : List (FixedBytes 8)
  ttlMs : UInt64

def roleByte (role : String) : Option UInt8 :=
  if role="agent" then some 0x01
  else if role="executor" then some 0x02
  else if role="approver" then some 0x03
  else none

/-- What the system answers while a certificate is issued. -/
structure IssueIo where
  readable : Nat → Bool
  createDir : Bool
  write : WriteOutcome

/-- A pair counts when both of its halves are there and have the length of a key. -/
def loadKeys (d : CaDir) (readable : Nat → Bool) :
    List Nat → Except CaError (List (FixedBytes 32×FixedBytes 32))
  | [] => .ok []
  | i::rest =>
    match d.sig i,d.pub i with
    | some sigBytes,some pubBytes =>
      if readable i=false then .error .NoCaKeys
      else if sigBytes.length=keyLen ∧ pubBytes.length=keyLen then
        (loadKeys d readable rest).map (fun keys => (fixed 32 sigBytes,fixed 32 pubBytes)::keys)
      else loadKeys d readable rest
    | _,_ => loadKeys d readable rest

/-- The bytes that are signed; the two lengths are cut to the width of their fields. -/
def issuedTbs (role : UInt8) (req : IssueReq) (nowMs expiryMs : UInt64) : Bytes :=
  [3,role]++List.replicate 32 0++List.replicate 32 0++put64 nowMs++put64 expiryMs++
    beBytes 2 req.subject.length++req.subject++[UInt8.ofNat req.scopes.length]++
    req.scopes.flatMap List.Vector.toList

/-- The file: the signed bytes with the signatures behind them. -/
def issuedCert (S : Signer) (tbs : Bytes) (keys : List (FixedBytes 32×FixedBytes 32)) : Bytes :=
  tbs++keys.flatMap (fun k => (S.sign k.1 (domainCert::tbs)).toList)

def CaDir.store (d : CaDir) (serial : Bytes) (file : Option Bytes) : CaDir :=
  { d with issued := Function.update d.issued serial file }

@[simp] theorem CaDir.store_issued (d : CaDir) (serial : Bytes) (file : Option Bytes) :
    (d.store serial file).issued serial=file := Function.update_self _ _ _

/-- `none` is the panic of the addition that overflows. -/
def caIssue (K : Crypto) (S : Signer) (d : CaDir) (req : IssueReq) (nowMs : UInt64) (io : IssueIo) :
    Option (Except CaError (FixedBytes 32)×CaDir) :=
  match roleByte req.role with
  | none => some (.error .BadRole,d)
  | some role =>
    if req.ttlMs=0 then some (.error .BadTtl,d)
    else if (role=0x03 ∨ role=0x02) ∧ maxPrivilegedLifetimeMs < req.ttlMs.toNat then
      some (.error .TtlOverCap,d)
    else
      match loadKeys d io.readable (List.range 8) with
      | .error e => some (.error e,d)
      | .ok keys =>
        if keys.length < 2 then some (.error .NoCaKeys,d)
        else if 2^64 ≤ nowMs.toNat+req.ttlMs.toNat then none
        else
          let tbs := issuedTbs role req nowMs (nowMs+req.ttlMs)
          let serial := serialOf K tbs
          if io.createDir=false then some (.error .DataDirUnwritable,d)
          else
            let d' := d.store serial.toList (io.write.leaves (issuedCert S tbs keys))
            if io.write.ok=false then some (.error .DataDirUnwritable,d') else some (.ok serial,d')

/-- The file is missing, or cannot be read. -/
def caShow (d : CaDir) (serial : Bytes) (readable : Bool) : Except CaError Bytes :=
  match d.issued serial with
  | none => .error .CertUnreadable
  | some file => if readable=false then .error .CertUnreadable else .ok file

/-- `none` is the panic of the slice past the end of the file. -/
def caRevoke (d : CaDir) (serial : Bytes) (readable : Bool) (subjectExpiryMs : Option UInt64) :
    Option (Except CaError Bytes) :=
  match caShow d serial readable with
  | .error e => some (.error e)
  | .ok file =>
    if file.length < 32 then none
    else some (.ok ([7,2]++file.take 32++(subjectExpiryMs.map put64).getD []))

section Init

variable (S : Signer) (seed : Nat → FixedBytes 32) (io : InitIo)

/-- Both halves of the key stand in their files. -/
def CaDir.HoldsKey (d : CaDir) (i : Nat) : Prop :=
  d.sig i=some (seed i).toList ∧ d.pub i=some (S.verifyingKey (seed i)).toList

/-- A write that is answered with no error has stored its bytes. -/
theorem leaves_ok {o : WriteOutcome} (h : o.ok≠false) (content : Bytes) : o.leaves content=some content := by
  cases o with
  | written => rfl
  | failed left => exact absurd rfl h

/-- The loop stores the keys it comes to and leaves the others as they are. -/
theorem caInitLoop_holds (is : List Nat) (d : CaDir) (h : (caInitLoop S seed io is d).1=.ok ()) (i : Nat) :
    (i∈is → (caInitLoop S seed io is d).2.HoldsKey S seed i) ∧
      (i∉is → d.HoldsKey S seed i → (caInitLoop S seed io is d).2.HoldsKey S seed i) := by
  induction is generalizing d with
  | nil => exact ⟨fun hi => absurd hi (List.not_mem_nil),fun _ hd => hd⟩
  | cons j is ih =>
    rw [caInitLoop] at h ⊢
    by_cases hsig : (io.sig j).ok=false
    · simp [hsig] at h
    · by_cases hpub : (io.pub j).ok=false
      · simp [hsig,hpub] at h
      · simp only [if_neg hsig,if_neg hpub] at h ⊢
        obtain ⟨hin,hout⟩ := ih _ h
        have hj (hij : i=j) : CaDir.HoldsKey S seed
            { d with
              sig := Function.update d.sig j ((io.sig j).leaves (seed j).toList)
              pub := Function.update d.pub j ((io.pub j).leaves (S.verifyingKey (seed j)).toList) } i := by
          subst hij
          exact ⟨(Function.update_self _ _ _).trans (leaves_ok hsig _),
            (Function.update_self _ _ _).trans (leaves_ok hpub _)⟩
        constructor
        · intro hi
          by_cases his : i∈is
          · exact hin his
          · exact hout his (hj ((List.mem_cons.mp hi).resolve_right his))
        · intro hi hd
          rw [List.mem_cons,not_or] at hi
          exact hout hi.2 ⟨(Function.update_of_ne hi.1 _ _).trans hd.1,(Function.update_of_ne hi.1 _ _).trans hd.2⟩

theorem caInit_holds (d : CaDir) (count : Nat) (h : (caInit S d count seed io).1=.ok ()) :
    ∀i < count,(caInit S d count seed io).2.HoldsKey S seed i := by
  intro i hi
  rw [caInit] at h ⊢
  by_cases hcount : count=0 ∨ 8 < count
  · simp [hcount] at h
  · by_cases hdirs : io.createDirs=false
    · simp [hcount,hdirs] at h
    · simp only [if_neg hcount,if_neg hdirs] at h ⊢
      exact (caInitLoop_holds S seed io _ d h i).1 (List.mem_range.mpr hi)

theorem loadKeys_readable (d : CaDir) (readable : Nat → Bool) (hr : ∀i,readable i=true) (is : List Nat) :
    ∃keys,loadKeys d readable is=.ok keys := by
  induction is with
  | nil => exact ⟨[],rfl⟩
  | cons i is ih =>
    obtain ⟨keys,hk⟩ := ih
    rw [loadKeys,hk,hr]
    cases d.sig i with
    | none => exact ⟨keys,rfl⟩
    | some sigBytes =>
      cases d.pub i with
      | none => exact ⟨keys,rfl⟩
      | some pubBytes =>
        by_cases hl : sigBytes.length=keyLen ∧ pubBytes.length=keyLen
        · exact ⟨(fixed 32 sigBytes,fixed 32 pubBytes)::keys,by simp [hl,Except.map]⟩
        · exact ⟨keys,by simp [hl]⟩

theorem loadKeys_holds (d : CaDir) (readable : Nat → Bool) (i : Nat) (is : List Nat)
    (keys : List (FixedBytes 32×FixedBytes 32)) (hr : readable i=true) (hd : d.HoldsKey S seed i)
    (hk : loadKeys d readable is=.ok keys) :
    loadKeys d readable (i::is)=.ok ((seed i,S.verifyingKey (seed i))::keys) := by
  rw [loadKeys,hd.1,hd.2,hr,hk]
  simp [keyLen,Except.map]

end Init

end Bolina.Ca
