import Bolina.Framework.Ciphers
import Bolina.Transport.Noise

namespace Bolina.Noise

open BigEndian Codec Transport Ciphers

/-- What the handshake relies on: X25519 commutes, and in-place decryption gives back
what was encrypted, over a buffer of the same length. -/
structure Suite.Laws (S : Suite) : Prop where
  commutes : ∀a b,S.x25519 a (S.x25519 b x25519Basepoint)=S.x25519 b (S.x25519 a x25519Basepoint)
  inPlace : ∀k n ad pt,(S.encryptInPlace k n ad pt).1.length=pt.length
  decrypts : ∀k n ad pt,
    S.decryptInPlace k n ad (S.encryptInPlace k n ad pt).1 (S.encryptInPlace k n ad pt).2=some pt

/-- What the symmetric state relies on of it. -/
structure Suite.AeadCorrect (S : Suite) : Prop where
  inPlace : ∀k n ad pt,(S.encryptInPlace k n ad pt).1.length=pt.length
  decrypts : ∀k n ad pt,
    S.decryptInPlace k n ad (S.encryptInPlace k n ad pt).1 (S.encryptInPlace k n ad pt).2=some pt

theorem Suite.Laws.aead {S : Suite} (hS : S.Laws) : S.AeadCorrect := ⟨hS.inPlace,hS.decrypts⟩

theorem slice_at (front field back msg : Bytes) (off n : Nat) (hm : msg=front++(field++back))
    (hf : front.length=off) (hn : field.length=n) : slice msg off n=field := by
  subst hm hf hn
  exact slice_mid front field back

section Messages

variable (index receiver : UInt32) (eph : Key) (encStatic encTimestamp encNothing : Bytes) (mac1 mac2 : Mac)

/-- The first message from its fields. -/
def msg1Of : Bytes := msg1Front index eph encStatic encTimestamp++(mac1.toList++mac2.toList)

/-- The second message from its fields. -/
def msg2Of : Bytes := msg2Front index receiver eph encNothing++(mac1.toList++mac2.toList)

/-- Every reader's view of the first message. -/
structure Msg1Fields (msg : Bytes) : Prop where
  length : msg.length=msg1Size
  kind : msg.head?=some 1
  front : msg.take msg1BeforeMac1=msg1Front index eph encStatic encTimestamp
  mac1 : slice msg off1Mac1 16=mac1.toList
  senderIndex : slice msg off1SenderIndex 4=put32 index
  ephemeral : slice msg off1Ephemeral dhLen=eph.toList
  encStatic : slice msg off1EncStatic (dhLen+tagLen)=encStatic
  encTimestamp : slice msg off1EncTimestamp (8+tagLen)=encTimestamp

theorem msg1_fields (hs : encStatic.length=48) (ht : encTimestamp.length=24) :
    Msg1Fields index eph encStatic encTimestamp mac1 (msg1Of index eph encStatic encTimestamp mac1 mac2) := by
  have hl : (msg1Front index eph encStatic encTimestamp).length=msg1BeforeMac1 := by
    simp [msg1Front,hs,ht,msg1BeforeMac1]
  constructor
  · simp [msg1Of,hl,msg1BeforeMac1,msg1Size]
  · rfl
  · rw [msg1Of,← hl,List.take_left]
  · exact slice_at _ _ mac2.toList _ _ _ rfl hl (by simp)
  · apply slice_at [1,0,0,0] _ (eph.toList++(encStatic++(encTimestamp++(mac1.toList++mac2.toList))))
    · simp [msg1Of,msg1Front]
    · rfl
    · simp
  · apply slice_at ([1,0,0,0]++put32 index) _ (encStatic++(encTimestamp++(mac1.toList++mac2.toList)))
    · simp [msg1Of,msg1Front]
    · simp [off1Ephemeral]
    · simp [dhLen]
  · apply slice_at ([1,0,0,0]++(put32 index++eph.toList)) _ (encTimestamp++(mac1.toList++mac2.toList))
    · simp [msg1Of,msg1Front]
    · simp [off1EncStatic]
    · simp [hs,dhLen,tagLen]
  · apply slice_at ([1,0,0,0]++(put32 index++(eph.toList++encStatic))) _ (mac1.toList++mac2.toList)
    · simp [msg1Of,msg1Front]
    · simp [off1EncTimestamp,hs]
    · simp [ht,tagLen]

structure Msg2Fields (msg : Bytes) : Prop where
  length : msg.length=msg2Size
  front : msg.take msg2BeforeMac1=msg2Front index receiver eph encNothing
  mac1 : slice msg off2Mac1 16=mac1.toList
  senderIndex : slice msg off2SenderIndex 4=put32 index
  receiverIndex : slice msg off2ReceiverIndex 4=put32 receiver
  ephemeral : slice msg off2Ephemeral dhLen=eph.toList
  encNothing : slice msg off2EncNothing tagLen=encNothing

/-- The two index fields, whatever is encrypted behind them. -/
theorem msg2_indices :
    slice (msg2Of index receiver eph encNothing mac1 mac2) off2SenderIndex 4=put32 index ∧
      slice (msg2Of index receiver eph encNothing mac1 mac2) off2ReceiverIndex 4=put32 receiver := by
  constructor
  · apply slice_at [2,0,0,0] _ (put32 receiver++(eph.toList++(encNothing++(mac1.toList++mac2.toList))))
    · simp [msg2Of,msg2Front]
    · rfl
    · simp
  · apply slice_at ([2,0,0,0]++put32 index) _ (eph.toList++(encNothing++(mac1.toList++mac2.toList)))
    · simp [msg2Of,msg2Front]
    · simp [off2ReceiverIndex]
    · simp

theorem msg2_fields (hn : encNothing.length=16) :
    Msg2Fields index receiver eph encNothing mac1 (msg2Of index receiver eph encNothing mac1 mac2) := by
  have hl : (msg2Front index receiver eph encNothing).length=msg2BeforeMac1 := by
    simp [msg2Front,hn,msg2BeforeMac1]
  constructor
  · simp [msg2Of,hl,msg2BeforeMac1,msg2Size]
  · rw [msg2Of,← hl,List.take_left]
  · exact slice_at _ _ mac2.toList _ _ _ rfl hl (by simp)
  · exact (msg2_indices index receiver eph encNothing mac1 mac2).1
  · exact (msg2_indices index receiver eph encNothing mac1 mac2).2
  · apply slice_at ([2,0,0,0]++(put32 index++put32 receiver)) _ (encNothing++(mac1.toList++mac2.toList))
    · simp [msg2Of,msg2Front]
    · simp [off2Ephemeral]
    · simp [dhLen]
  · apply slice_at ([2,0,0,0]++(put32 index++(put32 receiver++eph.toList))) _ (mac1.toList++mac2.toList)
    · simp [msg2Of,msg2Front]
    · simp [off2EncNothing]
    · simp [hn,tagLen]

end Messages

section Exchange

variable (S : Suite)

theorem dh_of_ne (sk pk : Key) (h : S.x25519 sk pk≠zeroKey) : dh S sk pk=.ok (S.x25519 sk pk) := if_neg h

/-- The two sides of a pair of key pairs compute one shared secret. -/
theorem dh_fromSecret (hS : S.Laws) (a b : Key) (h : S.x25519 a (KeyPair.fromSecret S b).pub≠zeroKey) :
    dh S a (KeyPair.fromSecret S b).pub=.ok (S.x25519 a (KeyPair.fromSecret S b).pub) ∧
      dh S b (KeyPair.fromSecret S a).pub=.ok (S.x25519 a (KeyPair.fromSecret S b).pub) := by
  have hc : S.x25519 b (KeyPair.fromSecret S a).pub=S.x25519 a (KeyPair.fromSecret S b).pub := hS.commutes b a
  refine ⟨dh_of_ne S _ _ h,?_⟩
  rw [dh_of_ne S b _ (by rw [hc]; exact h),hc]

theorem verifyMac1_compute (responderSigPubkey : Key) (msg : Bytes) :
    verifyMac1 S responderSigPubkey msg (computeMac1 S responderSigPubkey msg)=true := beq_self_eq_true _

theorem encryptAndHash_length (hS : S.AeadCorrect) (s : SymmetricState) (hk : s.hasKey=true) (pt : Bytes) :
    (s.encryptAndHash S pt).1.length=pt.length+tagLen := by
  rw [SymmetricState.encryptAndHash,if_pos hk]
  simp [hS.inPlace,tagLen]

/-- The reader recovers the plaintext and ends in the writer's state. -/
theorem decryptAndHash_encryptAndHash (hS : S.AeadCorrect) (s : SymmetricState) (pt : Bytes) :
    s.decryptAndHash S (s.encryptAndHash S pt).1=(.ok pt,(s.encryptAndHash S pt).2) := by
  rw [SymmetricState.encryptAndHash,SymmetricState.decryptAndHash]
  by_cases hk : s.hasKey=true
  · simp only [if_pos hk]
    have hl : ((S.encryptInPlace s.k (transportNonce s.n) s.h.toList pt).1++
        (S.encryptInPlace s.k (transportNonce s.n) s.h.toList pt).2.toList).length-tagLen=
        (S.encryptInPlace s.k (transportNonce s.n) s.h.toList pt).1.length := by
      simp [tagLen]
    rw [hl,List.take_left,List.drop_left,fixed_toList,hS.decrypts]
  · simp only [if_neg hk]

theorem decryptAndHash_error (s s' : SymmetricState) (ct : Bytes) (e : Error)
    (h : s.decryptAndHash S ct=(.error e,s')) : s'=s := by
  rw [SymmetricState.decryptAndHash] at h
  by_cases hk : s.hasKey=true
  · rw [if_pos hk] at h
    dsimp only at h
    split at h
    · cases h
      rfl
    · cases h
  · rw [if_neg hk] at h
    cases h

/-- The sender index is read off the message, whatever else is. -/
theorem readInitiation_index (r r' : Responder) (msg1 : Bytes) (sig : Key) (info : InitiationInfo)
    (h : r.readInitiation S msg1 sig=(.ok info,r')) : info.senderIndex=be32 (slice msg1 off1SenderIndex 4) := by
  rw [Responder.readInitiation] at h
  dsimp only at h
  split at h
  · cases h
  split at h
  · cases h
  split at h
  · cases h
  split at h
  · cases h
  split at h
  · cases h
  · cases h
    rfl

/-- A response that is written carries the two indices it was asked to carry. -/
theorem writeResponse_indices (r r' : Responder) (er sig : Key) (index receiver : UInt32) (cookie : Mac)
    (out : Bytes) (h : r.writeResponse S er index receiver sig cookie=(.ok out,r')) :
    be32 (slice out off2SenderIndex 4)=index ∧ be32 (slice out off2ReceiverIndex 4)=receiver := by
  rw [Responder.writeResponse] at h
  dsimp only at h
  split at h
  · cases h
  split at h
  · cases h
  · cases h
    obtain ⟨hs,hr⟩ := msg2_indices index receiver (KeyPair.fromSecret S er).pub _ _ cookie
    constructor
    · exact (congrArg be32 hs).trans (be32_put32 index)
    · exact (congrArg be32 hr).trans (be32_put32 receiver)

theorem ne_of_dh {sk pk k : Key} (h : dh S sk pk=.ok k) : S.x25519 sk pk≠zeroKey := by
  intro hz
  rw [dh,if_pos hz] at h
  cases h

/-- A message that is written met no zero secret. -/
theorem secrets_of_writeInitiation (i i' : Initiator) (ei sig : Key) (index : UInt32) (ts : UInt64) (cookie : Mac)
    (out : Bytes) (h : i.writeInitiation S ei index ts sig cookie=(.ok out,i')) :
    S.x25519 ei i.responderStaticPub≠zeroKey ∧ S.x25519 i.staticKp.secret i.responderStaticPub≠zeroKey := by
  rw [Initiator.writeInitiation] at h
  dsimp only at h
  split at h
  · cases h
  rename_i hes
  split at h
  · cases h
  rename_i hss
  exact ⟨ne_of_dh S hes,ne_of_dh S hss⟩

theorem secrets_of_writeResponse (r r' : Responder) (er sig : Key) (index receiver : UInt32) (cookie : Mac)
    (out : Bytes) (h : r.writeResponse S er index receiver sig cookie=(.ok out,r')) :
    S.x25519 er r.re≠zeroKey ∧ S.x25519 er r.remoteStaticPub≠zeroKey := by
  rw [Responder.writeResponse] at h
  dsimp only at h
  split at h
  · cases h
  rename_i hee
  split at h
  · cases h
  rename_i hse
  exact ⟨ne_of_dh S hee,ne_of_dh S hse⟩

/-- What the first message mixes in, and its two encrypted fields. -/
def mixInitiation (sym : SymmetricState) (eph es static ss : Key) (timestampMs : UInt64) :
    Bytes × Bytes × SymmetricState :=
  let encStatic := ((sym.mixHash S eph.toList).mixKey S es).encryptAndHash S static.toList
  let encTimestamp := (encStatic.2.mixKey S ss).encryptAndHash S (put64 timestampMs)
  (encStatic.1,encTimestamp.1,encTimestamp.2)

/-- What the second message mixes in, and its encrypted field. -/
def mixResponse (sym : SymmetricState) (eph ee se : Key) : Bytes × SymmetricState :=
  (((sym.mixHash S eph.toList).mixKey S ee).mixKey S se).encryptAndHash S []

variable (hS : S.Laws)
include hS

theorem mixInitiation_lengths (sym : SymmetricState) (eph es static ss : Key) (timestampMs : UInt64) :
    (mixInitiation S sym eph es static ss timestampMs).1.length=48 ∧
      (mixInitiation S sym eph es static ss timestampMs).2.1.length=24 := by
  constructor
  · exact (encryptAndHash_length S hS.aead _ rfl _).trans (by simp [tagLen])
  · exact (encryptAndHash_length S hS.aead _ rfl _).trans (by simp [tagLen])

theorem mixResponse_length (sym : SymmetricState) (eph ee se : Key) :
    (mixResponse S sym eph ee se).1.length=16 := encryptAndHash_length S hS.aead _ rfl _

omit hS in
theorem writeInitiation_eq (i : Initiator) (ei sig : Key) (index : UInt32) (ts : UInt64) (cookie : Mac)
    (es ss : Key) (hes : dh S ei i.responderStaticPub=.ok es)
    (hss : dh S i.staticKp.secret i.responderStaticPub=.ok ss) :
    let kp := KeyPair.fromSecret S ei
    let mixed := mixInitiation S i.sym kp.pub es i.staticKp.pub ss ts
    i.writeInitiation S ei index ts sig cookie=
      (.ok (msg1Of index kp.pub mixed.1 mixed.2.1
        (computeMac1 S sig (msg1Front index kp.pub mixed.1 mixed.2.1)) cookie),
        { i with ephKp := kp,sym := mixed.2.2 }) := by
  have hes' : dh S (KeyPair.fromSecret S ei).secret i.responderStaticPub=.ok es := hes
  simp only [Initiator.writeInitiation,hes',hss]
  rfl

/-- The responder reads what was written and mixes in the same. -/
theorem readInitiation_written (r : Responder) (sig eph static : Key) (index : UInt32) (ts : UInt64)
    (cookie : Mac) (es ss : Key) (hes : dh S r.staticKp.secret eph=.ok es)
    (hss : dh S r.staticKp.secret static=.ok ss) :
    let mixed := mixInitiation S r.sym eph es static ss ts
    r.readInitiation S (msg1Of index eph mixed.1 mixed.2.1
        (computeMac1 S sig (msg1Front index eph mixed.1 mixed.2.1)) cookie) sig=
      (.ok ⟨index,static,ts⟩,{ r with re := eph,remoteStaticPub := static,sym := mixed.2.2 }) := by
  intro mixed
  obtain ⟨hl1,hl2⟩ := mixInitiation_lengths S hS r.sym eph es static ss ts
  have hf := msg1_fields index eph mixed.1 mixed.2.1
    (computeMac1 S sig (msg1Front index eph mixed.1 mixed.2.1)) cookie hl1 hl2
  have hd1 : (((r.sym.mixHash S eph.toList).mixKey S es).decryptAndHash S mixed.1)=
      (.ok static.toList,(((r.sym.mixHash S eph.toList).mixKey S es).encryptAndHash S static.toList).2) :=
    decryptAndHash_encryptAndHash S hS.aead _ _
  have hd2 : ((((r.sym.mixHash S eph.toList).mixKey S es).encryptAndHash S static.toList).2.mixKey S
      ss).decryptAndHash S mixed.2.1=(.ok (put64 ts),mixed.2.2) :=
    decryptAndHash_encryptAndHash S hS.aead _ _
  simp only [Responder.readInitiation,hf.front,hf.mac1,hf.ephemeral,hf.encStatic,hf.encTimestamp,hf.senderIndex,
    fixed_toList,verifyMac1_compute,hes,hd1,hss,hd2,be32_put32,be64_put64,Bool.true_eq_false,if_false]

omit hS in
theorem writeResponse_eq (r : Responder) (er sig : Key) (index receiver : UInt32) (cookie : Mac)
    (ee se : Key) (hee : dh S er r.re=.ok ee) (hse : dh S er r.remoteStaticPub=.ok se) :
    let kp := KeyPair.fromSecret S er
    let mixed := mixResponse S r.sym kp.pub ee se
    r.writeResponse S er index receiver sig cookie=
      (.ok (msg2Of index receiver kp.pub mixed.1
        (computeMac1 S sig (msg2Front index receiver kp.pub mixed.1)) cookie),
        { r with ephKp := kp,sym := mixed.2 }) := by
  have hee' : dh S (KeyPair.fromSecret S er).secret r.re=.ok ee := hee
  have hse' : dh S (KeyPair.fromSecret S er).secret r.remoteStaticPub=.ok se := hse
  simp only [Responder.writeResponse,hee',hse']
  rfl

/-- The initiator reads what was written and mixes in the same. -/
theorem readResponse_written (i : Initiator) (sig eph : Key) (index receiver : UInt32) (cookie : Mac)
    (ee se : Key) (hee : dh S i.ephKp.secret eph=.ok ee) (hse : dh S i.staticKp.secret eph=.ok se) :
    let mixed := mixResponse S i.sym eph ee se
    i.readResponse S (msg2Of index receiver eph mixed.1
        (computeMac1 S sig (msg2Front index receiver eph mixed.1)) cookie) sig=
      (.ok (),{ i with re := eph,sym := mixed.2 }) := by
  intro mixed
  have hf := msg2_fields index receiver eph mixed.1
    (computeMac1 S sig (msg2Front index receiver eph mixed.1)) cookie
    (mixResponse_length S hS i.sym eph ee se)
  have hd : (((i.sym.mixHash S eph.toList).mixKey S ee).mixKey S se).decryptAndHash S mixed.1=
      (.ok [],mixed.2) := decryptAndHash_encryptAndHash S hS.aead _ _
  simp only [Initiator.readResponse,hf.front,hf.mac1,hf.ephemeral,hf.encNothing,fixed_toList,verifyMac1_compute,
    hee,hse,hd,Bool.true_eq_false,if_false]

end Exchange

/-- The four calls in order on the messages they make, and what each side then holds. -/
structure Agreement (S : Suite) (si sr ei er sig : Key) (index slot : UInt32) (ts : UInt64) (cookie1 cookie2 : Mac)
    (msg1 msg2 : Bytes) (i₁ i₂ : Initiator) (r₁ r₂ : Responder) : Prop where
  writes1 : (Initiator.new S (KeyPair.fromSecret S si) (KeyPair.fromSecret S sr).pub).writeInitiation S ei index ts
    sig cookie1=(.ok msg1,i₁)
  reads1 : (Responder.new S (KeyPair.fromSecret S sr)).readInitiation S msg1 sig=
    (.ok ⟨index,(KeyPair.fromSecret S si).pub,ts⟩,r₁)
  writes2 : r₁.writeResponse S er slot index sig cookie2=(.ok msg2,r₂)
  reads2 : i₁.readResponse S msg2 sig=(.ok (),i₂)
  slotIndex : be32 (slice msg2 off2SenderIndex 4)=slot
  echo : be32 (slice msg2 off2ReceiverIndex 4)=index
  hash : (i₂.finalize S).handshakeHash=(r₂.finalize S).handshakeHash
  forth : (i₂.finalize S).sendKey=(r₂.finalize S).recvKey
  back : (i₂.finalize S).recvKey=(r₂.finalize S).sendKey

section Agreement

variable (S : Suite) (si sr ei er sig : Key) (index slot : UInt32) (ts : UInt64) (cookie1 cookie2 : Mac)

/-- The fields of the first message, and the state it leaves on both sides. -/
def firstMixed : Bytes × Bytes × SymmetricState :=
  mixInitiation S (Responder.new S (KeyPair.fromSecret S sr)).sym (KeyPair.fromSecret S ei).pub
    (S.x25519 ei (KeyPair.fromSecret S sr).pub) (KeyPair.fromSecret S si).pub
    (S.x25519 si (KeyPair.fromSecret S sr).pub) ts

/-- The field of the second message, and the state it leaves on both sides. -/
def secondMixed : Bytes × SymmetricState :=
  mixResponse S (firstMixed S si sr ei ts).2.2 (KeyPair.fromSecret S er).pub
    (S.x25519 ei (KeyPair.fromSecret S er).pub) (S.x25519 si (KeyPair.fromSecret S er).pub)

def sentMsg1 : Bytes :=
  msg1Of index (KeyPair.fromSecret S ei).pub (firstMixed S si sr ei ts).1 (firstMixed S si sr ei ts).2.1
    (computeMac1 S sig (msg1Front index (KeyPair.fromSecret S ei).pub (firstMixed S si sr ei ts).1
      (firstMixed S si sr ei ts).2.1)) cookie1

def sentMsg2 : Bytes :=
  msg2Of slot index (KeyPair.fromSecret S er).pub (secondMixed S si sr ei er ts).1
    (computeMac1 S sig (msg2Front slot index (KeyPair.fromSecret S er).pub (secondMixed S si sr ei er ts).1)) cookie2

/-- The initiator that has written the first message. -/
def waiting : Initiator :=
  { Initiator.new S (KeyPair.fromSecret S si) (KeyPair.fromSecret S sr).pub with
    ephKp := KeyPair.fromSecret S ei
    sym := (firstMixed S si sr ei ts).2.2 }

/-- The responder that has read it. -/
def answering : Responder :=
  { Responder.new S (KeyPair.fromSecret S sr) with
    re := (KeyPair.fromSecret S ei).pub
    remoteStaticPub := (KeyPair.fromSecret S si).pub
    sym := (firstMixed S si sr ei ts).2.2 }

variable (hS : S.Laws)
include hS

theorem sentMsg1_fields :
    Msg1Fields index (KeyPair.fromSecret S ei).pub (firstMixed S si sr ei ts).1 (firstMixed S si sr ei ts).2.1
      (computeMac1 S sig (msg1Front index (KeyPair.fromSecret S ei).pub (firstMixed S si sr ei ts).1
        (firstMixed S si sr ei ts).2.1)) (sentMsg1 S si sr ei sig index ts cookie1) := by
  obtain ⟨hl1,hl2⟩ := mixInitiation_lengths S hS (Responder.new S (KeyPair.fromSecret S sr)).sym
    (KeyPair.fromSecret S ei).pub (S.x25519 ei (KeyPair.fromSecret S sr).pub) (KeyPair.fromSecret S si).pub
    (S.x25519 si (KeyPair.fromSecret S sr).pub) ts
  exact msg1_fields _ _ _ _ _ _ hl1 hl2

theorem sentMsg2_fields :
    Msg2Fields slot index (KeyPair.fromSecret S er).pub (secondMixed S si sr ei er ts).1
      (computeMac1 S sig (msg2Front slot index (KeyPair.fromSecret S er).pub (secondMixed S si sr ei er ts).1))
      (sentMsg2 S si sr ei er sig index slot ts cookie2) :=
  msg2_fields _ _ _ _ _ _ (mixResponse_length S hS _ _ _ _)

/-- Both symmetric states start equal, and each message leaves them equal. -/
theorem agreement (hes : S.x25519 ei (KeyPair.fromSecret S sr).pub≠zeroKey)
    (hss : S.x25519 si (KeyPair.fromSecret S sr).pub≠zeroKey)
    (hee : S.x25519 ei (KeyPair.fromSecret S er).pub≠zeroKey)
    (hse : S.x25519 si (KeyPair.fromSecret S er).pub≠zeroKey) :
    Agreement S si sr ei er sig index slot ts cookie1 cookie2 (sentMsg1 S si sr ei sig index ts cookie1)
      (sentMsg2 S si sr ei er sig index slot ts cookie2) (waiting S si sr ei ts)
      { waiting S si sr ei ts with re := (KeyPair.fromSecret S er).pub,sym := (secondMixed S si sr ei er ts).2 }
      (answering S si sr ei ts)
      { answering S si sr ei ts with
        ephKp := KeyPair.fromSecret S er
        sym := (secondMixed S si sr ei er ts).2 } := by
  obtain ⟨hes1,hes2⟩ := dh_fromSecret S hS ei sr hes
  obtain ⟨hss1,hss2⟩ := dh_fromSecret S hS si sr hss
  obtain ⟨hee1,hee2⟩ := dh_fromSecret S hS ei er hee
  obtain ⟨hse1,hse2⟩ := dh_fromSecret S hS si er hse
  constructor
  · exact writeInitiation_eq S _ ei sig index ts cookie1 _ _ hes1 hss1
  · exact readInitiation_written S hS _ sig _ _ index ts cookie1 _ _ hes2 hss2
  · exact writeResponse_eq S (answering S si sr ei ts) er sig slot index cookie2 _ _ hee2 hse2
  · exact readResponse_written S hS (waiting S si sr ei ts) sig _ slot index cookie2 _ _ hee1 hse1
  · rw [(sentMsg2_fields S si sr ei er sig index slot ts cookie2 hS).senderIndex,be32_put32]
  · rw [(sentMsg2_fields S si sr ei er sig index slot ts cookie2 hS).receiverIndex,be32_put32]
  · rfl
  · rfl
  · rfl

/-- The four calls succeed in order, the responder learns who calls, and both sides
end with one hash and crossed keys. -/
theorem noise_agreement (hes : S.x25519 ei (KeyPair.fromSecret S sr).pub≠zeroKey)
    (hss : S.x25519 si (KeyPair.fromSecret S sr).pub≠zeroKey)
    (hee : S.x25519 ei (KeyPair.fromSecret S er).pub≠zeroKey)
    (hse : S.x25519 si (KeyPair.fromSecret S er).pub≠zeroKey) :
    ∃msg1 msg2 i₁ i₂ r₁ r₂,
      Agreement S si sr ei er sig index slot ts cookie1 cookie2 msg1 msg2 i₁ i₂ r₁ r₂ :=
  ⟨_,_,_,_,_,_,agreement S si sr ei er sig index slot ts cookie1 cookie2 hS hes hss hee hse⟩

end Agreement

section Sample

def key32 (n : Nat) : Key := fixed 32 (beBytes 32 n)

def initiatorSecret : Key := List.Vector.replicate 32 0x11
def responderSecret : Key := List.Vector.replicate 32 0x22
def initiatorEph : Key := List.Vector.replicate 32 0x33
def responderEph : Key := List.Vector.replicate 32 0x44

def responderSig : Key := key32 0x8a88e3dd7409f195fd52db2d3cba5d72ca6709bf1d94121bf3748801b40f6f5c

/-- What X25519 makes of the base point for the secrets of one exchange, and of their
public keys for each other. -/
def curveRows : List (Key × Key × Key) := [
  (zeroKey,x25519Basepoint,key32 0x2fe57da347cd62431528daac5fbb290730fff684afc4cfc2ed90995f58cb3b74),
  (initiatorSecret,x25519Basepoint,key32 0x7b4e909bbe7ffe44c465a220037d608ee35897d31ef972f07f74892cb0f73f13),
  (responderSecret,x25519Basepoint,key32 0x0faa684ed28867b97f4a6a2dee5df8ce974e76b7018e3f22a1c4cf2678570f20),
  (initiatorEph,x25519Basepoint,key32 0x7b0d47d93427f8311160781c7c733fd89f88970aef490d8aa0ee19a4cb8a1b14),
  (responderEph,x25519Basepoint,key32 0xff2ee45601ec1b67310c7790404585ae697331eee1c1f8cf2419731c1fff3e6b),
  (initiatorEph,key32 0x0faa684ed28867b97f4a6a2dee5df8ce974e76b7018e3f22a1c4cf2678570f20,
    key32 0x1fdc192faa0212a9aae7bb4f41b580227fd5ad3e5d777faae230dfe973f3e805),
  (responderSecret,key32 0x7b0d47d93427f8311160781c7c733fd89f88970aef490d8aa0ee19a4cb8a1b14,
    key32 0x1fdc192faa0212a9aae7bb4f41b580227fd5ad3e5d777faae230dfe973f3e805),
  (initiatorSecret,key32 0x0faa684ed28867b97f4a6a2dee5df8ce974e76b7018e3f22a1c4cf2678570f20,
    key32 0x9e004098efc091d4ec2663b4e9f5cfd4d7064571690b4bea97ab146ab9f35056),
  (responderSecret,key32 0x7b4e909bbe7ffe44c465a220037d608ee35897d31ef972f07f74892cb0f73f13,
    key32 0x9e004098efc091d4ec2663b4e9f5cfd4d7064571690b4bea97ab146ab9f35056),
  (initiatorEph,key32 0xff2ee45601ec1b67310c7790404585ae697331eee1c1f8cf2419731c1fff3e6b,
    key32 0x3c528e9fd39731b15d10de8feb5f71d3f65b73c993581dedb03315a9ed177730),
  (responderEph,key32 0x7b0d47d93427f8311160781c7c733fd89f88970aef490d8aa0ee19a4cb8a1b14,
    key32 0x3c528e9fd39731b15d10de8feb5f71d3f65b73c993581dedb03315a9ed177730),
  (initiatorSecret,key32 0xff2ee45601ec1b67310c7790404585ae697331eee1c1f8cf2419731c1fff3e6b,
    key32 0xb21afd23cc289c5c693adc6d9c7198657e590320fa4dd7a0aaf606e441a2ea46),
  (responderEph,key32 0x7b4e909bbe7ffe44c465a220037d608ee35897d31ef972f07f74892cb0f73f13,
    key32 0xb21afd23cc289c5c693adc6d9c7198657e590320fa4dd7a0aaf606e441a2ea46)]

/-- X25519 on the keys of the exchange; anything else meets the zero point. -/
def curve (a p : Key) : Key :=
  match curveRows.find? (fun r => r.1==a && r.2.1==p) with
  | some r => r.2.2
  | none => zeroKey

def curveSecrets : List Key := [zeroKey,initiatorSecret,responderSecret,initiatorEph,responderEph]

theorem curve_none (a p : Key) (h : ∀r∈curveRows,¬(r.1=a ∧ r.2.1=p)) : curve a p=zeroKey := by
  have hn : curveRows.find? (fun r => r.1==a && r.2.1==p)=none := by
    rw [List.find?_eq_none]
    intro r hr
    rw [Bool.and_eq_true,beq_iff_eq,beq_iff_eq]
    exact h r hr
  rw [curve,hn]

theorem curve_stranger (a p : Key) (h : a∉curveSecrets) : curve a p=zeroKey := by
  apply curve_none
  intro r hr he
  have hall : curveRows.all (fun r => decide (r.1∈curveSecrets))=true := by decide +kernel
  have hmem := List.all_eq_true.mp hall r hr
  rw [he.1] at hmem
  exact h (of_decide_eq_true hmem)

theorem curve_zero (a : Key) : curve a zeroKey=zeroKey := by
  apply curve_none
  intro r hr he
  have hall : curveRows.all (fun r => r.2.1!=zeroKey)=true := by decide +kernel
  have hne := List.all_eq_true.mp hall r hr
  exact bne_iff_ne.mp hne he.2

theorem curve_commutes (a b : Key) : curve a (curve b x25519Basepoint)=curve b (curve a x25519Basepoint) := by
  by_cases ha : a∈curveSecrets
  · by_cases hb : b∈curveSecrets
    · have hall : curveSecrets.all (fun a => curveSecrets.all (fun b =>
          curve a (curve b x25519Basepoint)==curve b (curve a x25519Basepoint)))=true := by decide +kernel
      have hrow := List.all_eq_true.mp hall a ha
      exact eq_of_beq (List.all_eq_true.mp hrow b hb)
    · rw [curve_stranger b _ hb,curve_stranger b _ hb,curve_zero]
  · rw [curve_stranger a _ ha,curve_stranger a _ ha,curve_zero]

/-- BLAKE2s and ChaCha20-Poly1305, and X25519 on the keys of the exchange. The
handshake verifies no signature. -/
def sampleSuite : Suite where
  blake2s msg := fixed 32 (blake2s 32 [] msg)
  ed25519 _ _ _ := false
  blake2sMac key msg := fixed 16 (blake2s 16 key.toList msg)
  x25519 := curve
  encryptInPlace key nonce ad pt :=
    let ct := xorStream key.toList nonce pt
    (ct,fixed 16 (tag key.toList nonce ad ct))
  decryptInPlace key nonce ad ct mac :=
    if fixed 16 (tag key.toList nonce ad ct)=mac then some (xorStream key.toList nonce ct) else none

theorem sampleSuite_laws : sampleSuite.Laws where
  commutes := curve_commutes
  inPlace _ _ _ pt := xorStream_length _ _ pt
  decrypts key nonce ad pt := by
    simp only [sampleSuite,if_true,xorStream_xorStream]

/-- ChaCha20-Poly1305 as the sessions use it. -/
def chachaPoly : Aead where
  encrypt key nonce msg ad := some (sealBytes key.toList nonce msg ad)
  decrypt key nonce ct ad := openBytes key.toList nonce ct ad

theorem noise_agreement_sample :
    ∃msg1 msg2 i₁ i₂ r₁ r₂,
      Agreement sampleSuite initiatorSecret responderSecret initiatorEph responderEph
        responderSig 7 0 1700000000000
        (fixed 16 []) (fixed 16 []) msg1 msg2 i₁ i₂ r₁ r₂ :=
  noise_agreement sampleSuite _ _ _ _ _ _ _ _ _ _ sampleSuite_laws (by decide +kernel) (by decide +kernel)
    (by decide +kernel) (by decide +kernel)

end Sample

end Bolina.Noise
