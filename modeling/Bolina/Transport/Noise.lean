import Bolina.Codec.Codec
import Bolina.Transport.Session

namespace Bolina.Noise

open BigEndian Codec Transport

def dhLen : Nat := 32
def tagLen : Nat := 16
def msg1Size : Nat := 144
def msg2Size : Nat := 92
def msg1BeforeMac1 : Nat := 112
def msg2BeforeMac1 : Nat := 60
def off1SenderIndex : Nat := 4
def off1Ephemeral : Nat := 8
def off1EncStatic : Nat := 40
def off1EncTimestamp : Nat := 88
def off1Mac1 : Nat := 112
def off2SenderIndex : Nat := 4
def off2ReceiverIndex : Nat := 8
def off2Ephemeral : Nat := 12
def off2EncNothing : Nat := 44
def off2Mac1 : Nat := 60

def ascii (cs : List Char) : Bytes := cs.map (fun c => UInt8.ofNat c.toNat)

def protocolName : Bytes :=
  ascii ['N','o','i','s','e','_','I','K','_','2','5','5','1','9','_','C','h','a','C','h','a','P','o','l','y','_',
    'B','L','A','K','E','2','s']

def mac1Label : Bytes := ascii ['b','o','l','i','n','a','-','m','a','c','1','-','v','2']

abbrev Mac := FixedBytes 16

/-- The primitives of the handshake. Encryption works in place on a buffer of fixed
size: from a key, a nonce, the associated data and the plaintext it makes the
ciphertext and the tag. -/
structure Suite extends Crypto where
  blake2sMac : Key → Bytes → Mac
  x25519 : Key → Key → Key
  encryptInPlace : Key → Bytes → Bytes → Bytes → Bytes × Mac
  decryptInPlace : Key → Bytes → Bytes → Bytes → Mac → Option Bytes

inductive Error where
  | Mac1Failed
  | DecryptFailed
  | IdentityPoint
  deriving DecidableEq,Repr

structure HandshakeResult where
  sendKey : Key
  recvKey : Key
  handshakeHash : Key
  deriving DecidableEq

def x25519Basepoint : Key := fixed 32 [9]

section Suite

variable (S : Suite)

def mac1Key (responderSigPubkey : Key) : Key := S.blake2s (mac1Label++responderSigPubkey.toList)

def computeMac1 (responderSigPubkey : Key) (msgPreceding : Bytes) : Mac :=
  S.blake2sMac (mac1Key S responderSigPubkey) msgPreceding

def verifyMac1 (responderSigPubkey : Key) (msgPreceding : Bytes) (received : Mac) : Bool :=
  computeMac1 S responderSigPubkey msgPreceding==received

/-- HMAC over the block of 64 bytes of the hash. -/
def hmacBlake2s (key data : Bytes) : Key :=
  let k := (fixed 64 (if 64 < key.length then (S.blake2s key).toList else key)).toList
  let inner := S.blake2s (k.map (fun b => b^^^0x36)++data)
  S.blake2s (k.map (fun b => b^^^0x5c)++inner.toList)

def hkdf2 (ck : Key) (ikm : Bytes) : Key × Key :=
  let tempKey := hmacBlake2s S ck.toList ikm
  let o1 := hmacBlake2s S tempKey.toList [1]
  (o1,hmacBlake2s S tempKey.toList (o1.toList++[2]))

def dh (sk pk : Key) : Except Error Key :=
  let shared := S.x25519 sk pk
  if shared=zeroKey then .error .IdentityPoint else .ok shared

structure SymmetricState where
  h : Key
  ck : Key
  k : Key
  n : UInt64
  hasKey : Bool
  deriving DecidableEq

def SymmetricState.init : SymmetricState :=
  let h := S.blake2s protocolName
  ⟨h,h,zeroKey,0,false⟩

def SymmetricState.mixHash (s : SymmetricState) (data : Bytes) : SymmetricState :=
  { s with h := S.blake2s (s.h.toList++data) }

def SymmetricState.mixKey (s : SymmetricState) (ikm : Key) : SymmetricState :=
  { s with
    ck := (hkdf2 S s.ck ikm.toList).1
    k := (hkdf2 S s.ck ikm.toList).2
    n := 0
    hasKey := true }

def SymmetricState.encryptAndHash (s : SymmetricState) (pt : Bytes) : Bytes × SymmetricState :=
  if s.hasKey then
    let sealed := S.encryptInPlace s.k (transportNonce s.n) s.h.toList pt
    let out := sealed.1++sealed.2.toList
    (out,SymmetricState.mixHash S { s with n := s.n+1 } out)
  else (pt,s.mixHash S pt)

/-- A failed tag leaves the state as it was. -/
def SymmetricState.decryptAndHash (s : SymmetricState) (ct : Bytes) : Except Error Bytes × SymmetricState :=
  if s.hasKey then
    let ptLen := ct.length-tagLen
    match S.decryptInPlace s.k (transportNonce s.n) s.h.toList (ct.take ptLen) (fixed 16 (ct.drop ptLen)) with
    | none => (.error .DecryptFailed,s)
    | some pt => (.ok pt,SymmetricState.mixHash S { s with n := s.n+1 } ct)
  else (.ok ct,s.mixHash S ct)

def SymmetricState.split (s : SymmetricState) : Key × Key := hkdf2 S s.ck []

structure KeyPair where
  secret : Key
  pub : Key
  deriving DecidableEq

def KeyPair.fromSecret (secret : Key) : KeyPair := ⟨secret,S.x25519 secret x25519Basepoint⟩

structure Initiator where
  ephKp : KeyPair
  staticKp : KeyPair
  re : Key
  responderStaticPub : Key
  sym : SymmetricState
  deriving DecidableEq

/-- The static key of the responder is mixed in before the first message. -/
def Initiator.new (staticKp : KeyPair) (responderStaticPub : Key) : Initiator where
  ephKp := KeyPair.fromSecret S zeroKey
  staticKp
  re := zeroKey
  responderStaticPub
  sym := (SymmetricState.init S).mixHash S responderStaticPub.toList

/-- Everything of the first message that its mac1 covers. -/
def msg1Front (senderIndex : UInt32) (ephemeral : Key) (encStatic encTimestamp : Bytes) : Bytes :=
  [1,0,0,0]++(put32 senderIndex++(ephemeral.toList++(encStatic++encTimestamp)))

/-- The initiation: e, es, s, ss and the encrypted timestamp. `ephSecret` is what the
random source answers. -/
def Initiator.writeInitiation (i : Initiator) (ephSecret : Key) (senderIndex : UInt32) (timestampMs : UInt64)
    (responderSigPubkey : Key) (mac2Cookie : Mac) : Except Error Bytes × Initiator :=
  let ephKp := KeyPair.fromSecret S ephSecret
  let sym := i.sym.mixHash S ephKp.pub.toList
  match dh S ephKp.secret i.responderStaticPub with
  | .error e => (.error e,{ i with ephKp,sym })
  | .ok es =>
    let (encStatic,sym) := (sym.mixKey S es).encryptAndHash S i.staticKp.pub.toList
    match dh S i.staticKp.secret i.responderStaticPub with
    | .error e => (.error e,{ i with ephKp,sym })
    | .ok ss =>
      let (encTimestamp,sym) := (sym.mixKey S ss).encryptAndHash S (put64 timestampMs)
      let front := msg1Front senderIndex ephKp.pub encStatic encTimestamp
      let mac1 := computeMac1 S responderSigPubkey front
      (.ok (front++(mac1.toList++mac2Cookie.toList)),{ i with ephKp,sym })

/-- The response: its mac1 first, then e, ee, se and the empty payload. -/
def Initiator.readResponse (i : Initiator) (msg2 : Bytes) (responderSigPubkey : Key) :
    Except Error Unit × Initiator :=
  if verifyMac1 S responderSigPubkey (msg2.take msg2BeforeMac1) (fixed 16 (slice msg2 off2Mac1 16))=false then
    (.error .Mac1Failed,i)
  else
    let re := fixed 32 (slice msg2 off2Ephemeral dhLen)
    let sym := i.sym.mixHash S re.toList
    match dh S i.ephKp.secret re with
    | .error e => (.error e,{ i with re,sym })
    | .ok ee =>
      let sym := sym.mixKey S ee
      match dh S i.staticKp.secret re with
      | .error e => (.error e,{ i with re,sym })
      | .ok se =>
        match (sym.mixKey S se).decryptAndHash S (slice msg2 off2EncNothing tagLen) with
        | (.error e,sym) => (.error e,{ i with re,sym })
        | (.ok _,sym) => (.ok (),{ i with re,sym })

def Initiator.finalize (i : Initiator) : HandshakeResult :=
  ⟨(i.sym.split S).1,(i.sym.split S).2,i.sym.h⟩

structure Responder where
  staticKp : KeyPair
  ephKp : KeyPair
  re : Key
  remoteStaticPub : Key
  sym : SymmetricState
  deriving DecidableEq

structure InitiationInfo where
  senderIndex : UInt32
  initiatorStaticPub : Key
  timestampMs : UInt64
  deriving DecidableEq

/-- The responder mixes in its own static key. -/
def Responder.new (staticKp : KeyPair) : Responder where
  staticKp
  ephKp := KeyPair.fromSecret S zeroKey
  re := zeroKey
  remoteStaticPub := zeroKey
  sym := (SymmetricState.init S).mixHash S staticKp.pub.toList

def Responder.readInitiation (r : Responder) (msg1 : Bytes) (ownSigPubkey : Key) :
    Except Error InitiationInfo × Responder :=
  if verifyMac1 S ownSigPubkey (msg1.take msg1BeforeMac1) (fixed 16 (slice msg1 off1Mac1 16))=false then
    (.error .Mac1Failed,r)
  else
    let re := fixed 32 (slice msg1 off1Ephemeral dhLen)
    let sym := r.sym.mixHash S re.toList
    match dh S r.staticKp.secret re with
    | .error e => (.error e,{ r with re,sym })
    | .ok es =>
      match (sym.mixKey S es).decryptAndHash S (slice msg1 off1EncStatic (dhLen+tagLen)) with
      | (.error e,sym) => (.error e,{ r with re,sym })
      | (.ok static,sym) =>
        let remoteStaticPub := fixed 32 static
        match dh S r.staticKp.secret remoteStaticPub with
        | .error e => (.error e,{ r with re,remoteStaticPub,sym })
        | .ok ss =>
          match (sym.mixKey S ss).decryptAndHash S (slice msg1 off1EncTimestamp (8+tagLen)) with
          | (.error e,sym) => (.error e,{ r with re,remoteStaticPub,sym })
          | (.ok ts,sym) =>
            (.ok ⟨be32 (slice msg1 off1SenderIndex 4),remoteStaticPub,be64 ts⟩,
              { r with re,remoteStaticPub,sym })

/-- Everything of the second message that its mac1 covers. -/
def msg2Front (senderIndex receiverIndex : UInt32) (ephemeral : Key) (encNothing : Bytes) : Bytes :=
  [2,0,0,0]++(put32 senderIndex++(put32 receiverIndex++(ephemeral.toList++encNothing)))

/-- The sender index is the slot of the responder, the receiver index the echo of the
initiator's. -/
def Responder.writeResponse (r : Responder) (ephSecret : Key) (senderIndex receiverIndex : UInt32)
    (ownSigPubkey : Key) (mac2Cookie : Mac) : Except Error Bytes × Responder :=
  let ephKp := KeyPair.fromSecret S ephSecret
  let sym := r.sym.mixHash S ephKp.pub.toList
  match dh S ephKp.secret r.re with
  | .error e => (.error e,{ r with ephKp,sym })
  | .ok ee =>
    let sym := sym.mixKey S ee
    match dh S ephKp.secret r.remoteStaticPub with
    | .error e => (.error e,{ r with ephKp,sym })
    | .ok se =>
      let (encNothing,sym) := (sym.mixKey S se).encryptAndHash S []
      let front := msg2Front senderIndex receiverIndex ephKp.pub encNothing
      let mac1 := computeMac1 S ownSigPubkey front
      (.ok (front++(mac1.toList++mac2Cookie.toList)),{ r with ephKp,sym })

/-- The responder sends under the key the initiator receives under. -/
def Responder.finalize (r : Responder) : HandshakeResult :=
  ⟨(r.sym.split S).2,(r.sym.split S).1,r.sym.h⟩

end Suite

end Bolina.Noise
