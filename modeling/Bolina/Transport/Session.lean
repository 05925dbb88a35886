import Bolina.Framework.BigEndian
import Mathlib.Data.Vector.Basic

namespace Bolina.Transport

open BigEndian

abbrev Key := List.Vector UInt8 32

def rekeyAfterMessages : UInt64 := (1 : UInt64)<<<48
def headerSize : Nat := 16
def msgTypeTransport : UInt8 := 4

inductive TransportError where
  | RekeyRequired
  | DecryptFailed
  | Replay
  | SlotFull
  | OutOfRange
  | NotBound
  deriving DecidableEq,Repr

/-- The AEAD of the transport. Arguments: key, nonce, message, associated data.
Encryption appends a 16-byte tag; decryption answers `none` when the tag fails. -/
structure Aead where
  encrypt : Key → Bytes → Bytes → Bytes → Option Bytes
  decrypt : Key → Bytes → Bytes → Bytes → Option Bytes

def transportNonce (counter : UInt64) : Bytes := [0,0,0,0]++put64 counter

@[ext] structure ReplayWindow where
  highest : UInt64
  mask : UInt64
  deriving DecidableEq,Repr

def ReplayWindow.new : ReplayWindow := ⟨0,0⟩

/-- True iff the window takes the counter; a refused counter changes nothing. -/
def ReplayWindow.check (w : ReplayWindow) (counter : UInt64) : Bool × ReplayWindow :=
  if w.highest=0 then (true,⟨counter,1⟩)
  else if w.highest<counter then
    let shift := counter-w.highest
    let mask := if 64 ≤ shift then 0 else w.mask<<<shift
    (true,⟨counter,mask|||1⟩)
  else if counter=w.highest then (false,w)
  else
    let behind := w.highest-counter
    if 64 ≤ behind then (false,w)
    else
      let bit := (1 : UInt64)<<<behind
      if w.mask&&&bit≠0 then (false,w) else (true,⟨w.highest,w.mask|||bit⟩)

structure CipherState where
  key : Key
  counter : UInt64
  deriving DecidableEq

def zeroKey : Key := List.Vector.replicate 32 0

def CipherState.new : CipherState := ⟨zeroKey,0⟩

/-- `out` is the buffer the ciphertext is copied into; it comes back with the
ciphertext in front of what the buffer held behind it. -/
def CipherState.seal (A : Aead) (cs : CipherState) (out plaintext ad : Bytes) :
    Except TransportError Bytes × CipherState :=
  if rekeyAfterMessages ≤ cs.counter then (.error .RekeyRequired,cs)
  else if out.length<plaintext.length+16 then (.error .OutOfRange,cs)
  else
    match A.encrypt cs.key (transportNonce cs.counter) plaintext ad with
    | none => (.error .DecryptFailed,cs)
    | some ct => (.ok (ct++out.drop ct.length),{ cs with counter := cs.counter+1 })

structure RecvState where
  key : Key
  window : ReplayWindow
  deriving DecidableEq

def RecvState.new : RecvState := ⟨zeroKey,ReplayWindow.new⟩

/-- The replay window is consulted only after the tag has verified. -/
def RecvState.open (A : Aead) (rs : RecvState) (out ad ct : Bytes) (counter : UInt64) :
    Except TransportError (Nat × Bytes) × RecvState :=
  if ct.length<16 then (.error .DecryptFailed,rs)
  else
    let ptLen := ct.length-16
    if out.length<ptLen then (.error .OutOfRange,rs)
    else
      match A.decrypt rs.key (transportNonce counter) ct ad with
      | none => (.error .DecryptFailed,rs)
      | some pt =>
        match rs.window.check counter with
        | (false,window) => (.error .Replay,{ rs with window })
        | (true,window) => (.ok (ptLen,pt++out.drop pt.length),{ rs with window })

structure Session where
  localIndex : UInt32
  peerIndex : UInt32
  send : CipherState
  recv : RecvState
  handshakeHash : Key
  keyEpochMs : UInt64
  bound : Bool
  inUse : Bool
  deriving DecidableEq

def Session.new : Session :=
  ⟨0,0,CipherState.new,RecvState.new,zeroKey,0,false,false⟩

def Session.header (s : Session) : Bytes :=
  [msgTypeTransport,0,0,0]++beBytes 4 s.peerIndex.toNat++put64 s.send.counter

def Session.seal (A : Aead) (s : Session) (out plaintext : Bytes) :
    Except TransportError (Nat × Bytes) × Session :=
  let total := headerSize+plaintext.length+16
  if out.length<total then (.error .OutOfRange,s)
  else
    match s.send.seal A ((out.take total).drop headerSize) plaintext s.header with
    | (.error e,send) => (.error e,{ s with send })
    | (.ok body,send) => (.ok (total,s.header++body++out.drop total),{ s with send })

def Session.open (A : Aead) (s : Session) (packet : Bytes) (hdrCounter : UInt64) (out : Bytes) :
    Except TransportError (Nat × Bytes) × Session :=
  if packet.length<headerSize then (.error .OutOfRange,s)
  else
    match s.recv.open A out (packet.take headerSize) (packet.drop headerSize) hdrCounter with
    | (r,recv) => (r,{ s with recv })

/-- The counter field of a packet header, as the receive path reads it. -/
def headerCounter (packet : Bytes) : UInt64 := be64 ((packet.drop 8).take 8)

@[simp] theorem Session.header_length (s : Session) : s.header.length=headerSize := by
  simp [Session.header,headerSize]

/-- The header carries the counter that its packet is sealed under. -/
theorem headerCounter_header (s : Session) (body : Bytes) :
    headerCounter (s.header++body)=s.send.counter := by
  have hd : (s.header++body).drop 8=put64 s.send.counter++body := by
    have hl : ([msgTypeTransport,0,0,0]++beBytes 4 s.peerIndex.toNat).length=8 := by simp
    rw [Session.header,List.append_assoc,← hl,List.drop_left]
  rw [headerCounter,hd,← put64_length s.send.counter,List.take_left,be64_put64]

/-- A session only opens what its window takes: the window is the whole effect
of `open` on the session. -/
theorem Session.open_frame (A : Aead) (s : Session) (packet out : Bytes) (c : UInt64) :
    (s.open A packet c out).2={ s with recv := (s.open A packet c out).2.recv } ∧
      (s.open A packet c out).2.recv.key=s.recv.key := by
  unfold Session.open
  split
  · exact ⟨rfl,rfl⟩
  · refine ⟨rfl,?_⟩
    unfold RecvState.open
    dsimp only
    repeat' split
    all_goals rfl

end Bolina.Transport
