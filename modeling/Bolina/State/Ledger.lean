import Bolina.Framework.BigEndian
import Bolina.Framework.FixedBytes
import Bolina.Framework.RecordLog
import Mathlib.Data.List.AList

namespace Bolina.State

open BigEndian RecordLog

abbrev GrantId := FixedBytes 16
abbrev SigPubkey := FixedBytes 32

/-- A hash map from fixed-size keys to millisecond times. -/
abbrev TimeMap (n : Nat) := AList (fun _ : FixedBytes n => UInt64)

def tagCommit : UInt8 := 0x01
def tagPublished : UInt8 := 0x02
def tagRevoke : UInt8 := 0x03
def tagFirstReceipt : UInt8 := 0x04
def recCommitLen : Nat := 25
def recPublishedLen : Nat := 17
def recRevokeLen : Nat := 41
def recFirstReceiptLen : Nat := 25
def maxLive : Nat := 1024

inductive LedgerError where
  | BadLog
  | ResourceExhausted
  | DiskError
  | Locked
  deriving DecidableEq,Repr

inductive Record where
  | commit (id : GrantId) (expiry : UInt64)
  | published (id : GrantId)
  | revoke (pk : SigPubkey) (certExpiry : UInt64)
  | firstReceipt (id : GrantId) (time : UInt64)
  deriving DecidableEq

def Record.bytes : Record → Bytes
  | .commit id expiry => tagCommit::(id.toList++put64 expiry)
  | .published id => tagPublished::id.toList
  | .revoke pk certExpiry => tagRevoke::(pk.toList++put64 certExpiry)
  | .firstReceipt id time => tagFirstReceipt::(id.toList++put64 time)

/-- The record length a tag byte announces; no other byte opens a record. -/
def recordNeed (tag : UInt8) : Option Nat :=
  if tag=tagCommit then some recCommitLen
  else if tag=tagPublished then some recPublishedLen
  else if tag=tagRevoke then some recRevokeLen
  else if tag=tagFirstReceipt then some recFirstReceiptLen
  else none

/-- The fields of a whole record; a tag that is none of the first three has
already been told to be the last one. -/
def Record.decode (rec : Bytes) : Record :=
  let tag := rec.headD 0
  if tag=tagCommit then .commit (fixed 16 ((rec.drop 1).take 16)) (be64 (rec.drop 17))
  else if tag=tagPublished then .published (fixed 16 (rec.drop 1))
  else if tag=tagRevoke then .revoke (fixed 32 ((rec.drop 1).take 32)) (be64 (rec.drop 33))
  else .firstReceipt (fixed 16 ((rec.drop 1).take 16)) (be64 (rec.drop 17))

/-- The in-memory state a log determines. -/
structure Caches where
  consumed : TimeMap 16
  consumedOrder : List GrantId
  published : Finset GrantId
  revoked : TimeMap 32
  firstReceipts : TimeMap 16
  deriving DecidableEq

def Caches.empty : Caches := ⟨∅,[],∅,∅,∅⟩

/-- What recovery does with one record. -/
def Caches.replay (c : Caches) : Record → Caches
  | .commit id expiry =>
    { c with
      consumedOrder :=
        if id∉c.published ∧ id∉c.consumed then c.consumedOrder++[id] else c.consumedOrder
      consumed := c.consumed.insert id expiry }
  | .published id =>
    { c with consumed := c.consumed.erase id,published := insert id c.published }
  | .revoke pk certExpiry => { c with revoked := c.revoked.insert pk certExpiry }
  | .firstReceipt id time =>
    { c with
      firstReceipts := if id∈c.firstReceipts then c.firstReceipts else c.firstReceipts.insert id time }

/-- What a mutator does with the record it has just appended. -/
def Caches.apply (c : Caches) : Record → Caches
  | .commit id expiry =>
    { c with consumedOrder := c.consumedOrder++[id],consumed := c.consumed.insert id expiry }
  | .published id =>
    { c with consumed := c.consumed.erase id,published := insert id c.published }
  | .revoke pk certExpiry => { c with revoked := c.revoked.insert pk certExpiry }
  | .firstReceipt id time => { c with firstReceipts := c.firstReceipts.insert id time }

/-- `file` is the cursor of the open handle. -/
structure GrantLedger extends Caches where
  file : Option Nat
  readOnly : Bool
  deriving DecidableEq

/-- The ledger file, the temporary file of a rewrite next to it, and the part of
the ledger file that has been synced. An absent ledger file reads as an empty one. -/
structure Disk where
  log : Bytes
  temp : Option Bytes
  synced : Bytes
  deriving DecidableEq

/-- How the operating system answers during one call, and the order in which hash
maps are walked. A read or write that fails has moved some bytes before. -/
structure Io where
  openFile : Bool
  lock : Bool
  removeTemp : Bool
  seek : Bool
  read : Option Nat
  write : Option Nat
  sync : Bool
  createTemp : Bool
  writeTemp : Option Nat
  syncTemp : Bool
  rename : Bool
  reopen : Bool
  relock : Bool
  order : ∀{n : Nat},TimeMap n → List (Σ_ : FixedBytes n,UInt64)
  orderPerm : ∀{n : Nat} (m : TimeMap n),(order m).Perm m.entries

def Io.good : Io where
  openFile := true
  lock := true
  removeTemp := true
  seek := true
  read := none
  write := none
  sync := true
  createTemp := true
  writeTemp := none
  syncTemp := true
  rename := true
  reopen := true
  relock := true
  order m := m.entries
  orderPerm _ := List.Perm.refl _

structure Recovery where
  orphans : List GrantId
  consumedCount : Nat
  revokedCount : Nat
  deriving DecidableEq

/-- One handle and the disk under it. -/
structure Store where
  ledger : GrantLedger
  disk : Disk
  deriving DecidableEq

def GrantLedger.open (io : Io) (d : Disk) : Except LedgerError GrantLedger × Disk :=
  if !io.openFile then (.error .DiskError,d)
  else if !io.lock then (.error .Locked,d)
  else if d.temp.isSome && !io.removeTemp then (.error .DiskError,d)
  else (.ok { Caches.empty with file := some 0,readOnly := false },{ d with temp := none })

def GrantLedger.openReadOnly (io : Io) : Except LedgerError GrantLedger :=
  if !io.openFile then .error .DiskError
  else .ok { Caches.empty with file := some 0,readOnly := true }

/-- The loop of `recover` over the bytes not yet read; every pass reads a record,
so the length of the input is enough fuel. -/
def Caches.replayLoop : Nat → Bytes → Caches → Except LedgerError Unit × Caches
  | 0,_,c => (.ok (),c)
  | _+1,[],c => (.ok (),c)
  | k+1,tag::rest,c =>
    match recordNeed tag with
    | none => (.error .BadLog,c)
    | some need =>
      if (tag::rest).length<need then (.ok (),c)
      else
        Caches.replayLoop k ((tag::rest).drop need)
          (c.replay (Record.decode ((tag::rest).take need)))

def Caches.orphans (c : Caches) : List GrantId := c.consumedOrder.filter (fun id => id∈c.consumed)

def Caches.recovery (c : Caches) : Recovery := ⟨c.orphans,c.consumed.keys.length,c.revoked.keys.length⟩

def Store.recover (io : Io) (s : Store) : Except LedgerError Recovery × Store :=
  match s.ledger.file with
  | none => (.error .DiskError,s)
  | some _ =>
    if !io.seek then (.error .DiskError,s)
    else
      match io.read with
      | some k => (.error .DiskError,{ s with ledger := { s.ledger with file := some k } })
      | none =>
        let buf := s.disk.log
        match Caches.replayLoop buf.length buf Caches.empty with
        | (.error e,c) =>
          (.error e,{ s with ledger := { s.ledger with toCaches := c,file := some buf.length } })
        | (.ok _,c) =>
          (.ok c.recovery,{ s with ledger := { s.ledger with toCaches := c,file := some buf.length } })

/-- `write_all` and `sync_all` at the cursor. -/
def Store.append (io : Io) (s : Store) (rec : Bytes) : Except LedgerError Unit × Store :=
  if s.ledger.readOnly then (.error .DiskError,s)
  else
    match s.ledger.file with
    | none => (.error .DiskError,s)
    | some pos =>
      -- a failing `write_all` still has bytes left to write
      let put := match io.write with | some k => rec.dropLast.take k | none => rec
      let log := writeAt 0 s.disk.log pos put
      let ledger := { s.ledger with file := some (pos+put.length) }
      if io.write.isSome || !io.sync then (.error .DiskError,⟨ledger,{ s.disk with log }⟩)
      else (.ok (),⟨ledger,{ s.disk with log,synced := log }⟩)

/-- The common end of the mutators: append the record, then fold it into the caches. -/
def Store.logRecord (io : Io) (s : Store) (r : Record) : Except LedgerError Unit × Store :=
  match s.append io r.bytes with
  | (.error e,s') => (.error e,s')
  | (.ok _,s') => (.ok (),{ s' with ledger := { s'.ledger with toCaches := s'.ledger.apply r } })

def Caches.expired (c : Caches) (nowMs : UInt64) : List GrantId :=
  (c.consumed.entries.filter (fun e => decide (e.2 ≤ nowMs))).map (fun e => e.1)

def Caches.dropExpired (c : Caches) (nowMs : UInt64) : Caches :=
  let consumed := (c.expired nowMs).foldl (fun m id => m.erase id) c.consumed
  { c with consumed,consumedOrder := c.consumedOrder.filter (fun id => id∈consumed) }

/-- The records of a rewritten file: live commits, revocations, anchors. -/
def Caches.imageRecords (io : Io) (c : Caches) : List Record :=
  (io.order c.consumed).map (fun e => .commit e.1 e.2)++
    (io.order c.revoked).map (fun e => .revoke e.1 e.2)++
      (io.order c.firstReceipts).map (fun e => .firstReceipt e.1 e.2)

def Caches.image (io : Io) (c : Caches) : Bytes := (c.imageRecords io).flatMap Record.bytes

/-- Temp file, sync, rename, reopen and lock again. The sync of the parent
directory is best effort: the source ignores its result. -/
def Store.rewrite (io : Io) (s : Store) (image : Bytes) : Except LedgerError Unit × Store :=
  if !io.createTemp then (.error .DiskError,s)
  else
    match io.writeTemp with
    | some k => (.error .DiskError,{ s with disk := { s.disk with temp := some (image.take k) } })
    | none =>
      if !io.syncTemp || !io.rename then
        (.error .DiskError,{ s with disk := { s.disk with temp := some image } })
      else
        let disk : Disk := ⟨image,none,image⟩
        if !io.reopen then (.error .DiskError,⟨{ s.ledger with file := none },disk⟩)
        else if !io.relock then (.error .Locked,⟨{ s.ledger with file := none },disk⟩)
        else (.ok (),⟨{ s.ledger with file := some 0 },disk⟩)

def Store.pruneExpired (io : Io) (s : Store) (nowMs : UInt64) : Except LedgerError Unit × Store :=
  if s.ledger.readOnly then (.error .DiskError,s)
  else if s.ledger.expired nowMs=[] then (.ok (),s)
  else
    let c := s.ledger.dropExpired nowMs
    { s with ledger := { s.ledger with toCaches := c } }.rewrite io (c.image io)

def Store.commitConsumed (io : Io) (s : Store) (grantId : GrantId) (expiryMs nowMs : UInt64) :
    Except LedgerError Unit × Store :=
  if grantId∈s.ledger.consumed ∨ grantId∈s.ledger.published then (.ok (),s)
  else if maxLive ≤ s.ledger.consumed.keys.length then
    match s.pruneExpired io nowMs with
    | (.error e,s') => (.error e,s')
    | (.ok _,s') =>
      if maxLive ≤ s'.ledger.consumed.keys.length then (.error .ResourceExhausted,s')
      else s'.logRecord io (.commit grantId expiryMs)
  else s.logRecord io (.commit grantId expiryMs)

def Store.markPublished (io : Io) (s : Store) (grantId : GrantId) : Except LedgerError Unit × Store :=
  if grantId∈s.ledger.published then (.ok (),s) else s.logRecord io (.published grantId)

def Store.commitRevocation (io : Io) (s : Store) (sigPubkey : SigPubkey) (certExpiryMs : UInt64) :
    Except LedgerError Unit × Store :=
  if sigPubkey∈s.ledger.revoked then (.ok (),s)
  else if maxLive ≤ s.ledger.revoked.keys.length then (.error .ResourceExhausted,s)
  else s.logRecord io (.revoke sigPubkey certExpiryMs)

def Store.recordFirstReceipt (io : Io) (s : Store) (grantId : GrantId) (timeMs : UInt64) :
    Except LedgerError Unit × Store :=
  if grantId∈s.ledger.firstReceipts then (.ok (),s) else s.logRecord io (.firstReceipt grantId timeMs)

def Caches.getFirstReceipt (c : Caches) (grantId : GrantId) : Option UInt64 :=
  c.firstReceipts.lookup grantId

def Caches.isConsumed (c : Caches) (grantId : GrantId) : Bool := decide (grantId∈c.consumed)

def Caches.isPublished (c : Caches) (grantId : GrantId) : Bool := decide (grantId∈c.published)

def Caches.isRevoked (c : Caches) (sigPubkey : SigPubkey) : Bool := decide (sigPubkey∈c.revoked)

def GrantLedger.close (l : GrantLedger) : GrantLedger := { l with file := none }

theorem Record.bytes_length (r : Record) :
    recordNeed (r.bytes.headD 0)=some r.bytes.length := by
  cases r <;> simp [Record.bytes,recordNeed,tagCommit,tagPublished,tagRevoke,tagFirstReceipt,
    recCommitLen,recPublishedLen,recRevokeLen,recFirstReceiptLen]

theorem Record.decode_bytes (r : Record) : Record.decode r.bytes=r := by
  have split : ∀{n : Nat} (v : FixedBytes n) (w : UInt64),
      (v.toList++put64 w).take n=v.toList ∧ (v.toList++put64 w).drop n=put64 w := by
    intro n v w
    exact ⟨List.take_left' v.toList_length,List.drop_left' v.toList_length⟩
  cases r with
  | commit id expiry =>
    simp [Record.bytes,Record.decode,split id expiry,fixed_toList]
  | published id =>
    simp [Record.bytes,Record.decode,tagCommit,tagPublished,fixed_toList]
  | revoke pk certExpiry =>
    simp [Record.bytes,Record.decode,tagCommit,tagPublished,tagRevoke,split pk certExpiry,fixed_toList]
  | firstReceipt id time =>
    simp [Record.bytes,Record.decode,tagCommit,tagPublished,tagRevoke,tagFirstReceipt,split id time,
      fixed_toList]

theorem recordNeed_pos (tag : UInt8) (n : Nat) (h : recordNeed tag=some n) : 0<n := by
  simp only [recordNeed] at h
  split_ifs at h <;> simp only [Option.some.injEq] at h <;> rw [← h] <;> decide

/-- The ledger's records are self-delimiting. -/
def ledgerFormat : Format UInt8 Record where
  need := recordNeed
  bytes := Record.bytes
  decode := Record.decode
  framed r := by
    have hn := r.bytes_length
    cases r <;> exact ⟨_,_,rfl,hn⟩
  decode_bytes := Record.decode_bytes
  need_pos := recordNeed_pos

theorem recordNeed_cases (tag : UInt8) (n : Nat) (h : recordNeed tag=some n) :
    tag=tagCommit ∧ n=recCommitLen ∨ tag=tagPublished ∧ n=recPublishedLen ∨
      tag=tagRevoke ∧ n=recRevokeLen ∨ tag=tagFirstReceipt ∧ n=recFirstReceiptLen := by
  simp only [recordNeed] at h
  split_ifs at h with h1 h2 h3 h4 <;> simp_all

theorem split_fields (k : Nat) (rest : Bytes) (h : rest.length=k+8) :
    (fixed k (rest.take k)).toList++put64 (be64 (rest.drop k))=rest := by
  rw [toList_fixed _ (by rw [List.length_take,h]; omega),put64_be64 _ (by rw [List.length_drop,h]; omega),
    List.take_append_drop]

theorem ledger_total : ledgerFormat.Total := by
  intro tag rest h
  show (Record.decode (tag::rest)).bytes=tag::rest
  obtain ⟨rfl,hn⟩ | ⟨rfl,hn⟩ | ⟨rfl,hn⟩ | ⟨rfl,hn⟩ := recordNeed_cases tag _ h
  · have hl : rest.length=16+8 := by simpa [recCommitLen] using hn
    exact congrArg (List.cons _) (split_fields 16 rest hl)
  · have hl : rest.length=16 := by simpa [recPublishedLen] using hn
    exact congrArg (List.cons _) (toList_fixed rest hl)
  · have hl : rest.length=32+8 := by simpa [recRevokeLen] using hn
    exact congrArg (List.cons _) (split_fields 32 rest hl)
  · have hl : rest.length=16+8 := by simpa [recFirstReceiptLen] using hn
    exact congrArg (List.cons _) (split_fields 16 rest hl)

/-- The state a reader of whole records arrives at. -/
def Caches.replayAll (rs : List Record) : Caches := rs.foldl Caches.replay Caches.empty

theorem replayLoop_eq (k : Nat) (buf : Bytes) (c : Caches) :
    Caches.replayLoop k buf c=
      ((if (ledgerFormat.scan k buf).2 then .ok () else .error .BadLog),
        (ledgerFormat.scan k buf).1.foldl Caches.replay c) := by
  induction k generalizing buf c with
  | zero => rfl
  | succ k ih =>
    cases buf with
    | nil => rfl
    | cons tag rest =>
      have hneed : ledgerFormat.need tag=recordNeed tag := rfl
      rw [Caches.replayLoop,Format.scan,hneed]
      cases recordNeed tag with
      | none => rfl
      | some n =>
        by_cases hl : (tag::rest).length<n
        · simp only [if_pos hl]
          rfl
        · simp only [if_neg hl,ih]
          rfl

end Bolina.State
