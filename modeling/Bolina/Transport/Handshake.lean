import Bolina.Transport.NoiseAgreement
import Mathlib.Data.List.FinRange

namespace Bolina.Handshake

open BigEndian Transport Noise

abbrev maxSessions : Nat := 16
def tHsIdleMs : UInt64 := 900000

inductive HandshakeError where
  | NotInitiation
  | TableFull
  | Refused
  | SendFailed
  deriving DecidableEq,Repr

/-- The static key is the one the initiator proved in the exchange. -/
structure Session where
  sendKey : Key
  recvKey : Key
  handshakeHash : Key
  peerStatic : Key
  createdMs : UInt64
  deriving DecidableEq

abbrev Slot := Fin maxSessions

@[ext] structure Table where
  slots : Slot → Option Session

def Table.new : Table := ⟨fun _ => none⟩

def Table.hasFree (t : Table) : Bool := (List.finRange maxSessions).any (fun i => (t.slots i).isNone)

/-- The first free slot. -/
def Table.position (t : Table) : Option Slot := (List.finRange maxSessions).find? (fun i => (t.slots i).isNone)

/-- `none` when there is no free slot and the code panics. -/
def Table.commit (t : Table) (session : Session) : Option (Slot × Table) :=
  t.position.map (fun slot => (slot,⟨Function.update t.slots slot (some session)⟩))

def Table.releaseSlot (t : Table) (index : Nat) : Table :=
  if h : index < maxSessions then ⟨Function.update t.slots ⟨index,h⟩ none⟩ else t

/-- A slot is stale when it was committed more than `timeoutMs` before `nowMs`. -/
def Table.stale (t : Table) (nowMs timeoutMs : UInt64) (i : Slot) : Bool :=
  match t.slots i with
  | none => false
  | some s => decide (timeoutMs.toNat < nowMs.toNat-s.createdMs.toNat)

/-- The freed indices and the table without their sessions. -/
def Table.releaseStale (t : Table) (nowMs timeoutMs : UInt64) : List Slot × Table :=
  ((List.finRange maxSessions).filter (t.stale nowMs timeoutMs),
    ⟨fun i => if t.stale nowMs timeoutMs i then none else t.slots i⟩)

def zeroCookie : Mac := fixed 16 []

/-- The answer, the table it leaves and the messages that `send` was called with, in
order; `none` when the code panics. `ephSecret` is what the random source answers. -/
def processDatagram (S : Suite) (table : Table) (datagram : Bytes) (ownDhSecret ownSigPub ephSecret : Key)
    (send : Bytes → Bool) (nowMs : UInt64) : Option (Except HandshakeError Slot × Table × List Bytes) :=
  if datagram.length≠msg1Size ∨ datagram.head?≠some 1 then some (.error .NotInitiation,table,[])
  else if table.hasFree=false then some (.error .TableFull,table,[])
  else
    let responder := Responder.new S (KeyPair.fromSecret S ownDhSecret)
    match responder.readInitiation S datagram ownSigPub with
    | (.error _,_) => some (.error .Refused,table,[])
    | (.ok info,responder) =>
      match table.position with
      | none => none
      | some responderIndex =>
        match responder.writeResponse S ephSecret (UInt32.ofNat responderIndex) info.senderIndex ownSigPub
            zeroCookie with
        | (.error _,_) => some (.error .Refused,table,[])
        | (.ok out,responder) =>
          if send out=false then some (.error .SendFailed,table,[out])
          else
            let result := responder.finalize S
            let session : Session :=
              ⟨result.sendKey,result.recvKey,result.handshakeHash,info.initiatorStaticPub,nowMs⟩
            (table.commit session).map (fun c => (.ok c.1,c.2,[out]))

/-- A first message is answered: a slot is free, the message reads under the node's keys,
the random secret makes no zero shared secret with it, and the socket takes the response. -/
def Table.answers (S : Suite) (table : Table) (datagram : Bytes) (ownDhSecret ownSigPub ephSecret : Key)
    (send : Bytes → Bool) : Bool :=
  decide (datagram.length=msg1Size ∧ datagram.head?=some 1) &&
    match table.position with
    | none => false
    | some i =>
      match (Responder.new S (KeyPair.fromSecret S ownDhSecret)).readInitiation S datagram ownSigPub with
      | (.error _,_) => false
      | (.ok info,responder) =>
        match responder.writeResponse S ephSecret (UInt32.ofNat i) info.senderIndex ownSigPub zeroCookie with
        | (.error _,_) => false
        | (.ok out,_) => send out

theorem position_free (t : Table) (i : Slot) (h : t.position=some i) : t.slots i=none := by
  have hf := @List.find?_some _ (fun i => (t.slots i).isNone) i _ h
  exact Option.isNone_iff_eq_none.mp hf

theorem hasFree_of_position (t : Table) (i : Slot) (h : t.position=some i) : t.hasFree=true := by
  have hf : (t.slots i).isNone=true := by
    rw [position_free t i h]
    rfl
  exact List.any_eq_true.mpr ⟨i,List.mem_finRange i,hf⟩

theorem position_of_hasFree (t : Table) (h : t.hasFree=true) : ∃i,t.position=some i := by
  obtain ⟨i,hi,hf⟩ := List.any_eq_true.mp h
  cases hp : t.position with
  | some j => exact ⟨j,rfl⟩
  | none => exact absurd hf (List.find?_eq_none.mp hp i hi)

/-- What an exchange that ends well leaves: one message sent, one free slot taken. -/
structure Commits (S : Suite) (t : Table) (datagram : Bytes) (secret sig eph : Key) (send : Bytes → Bool)
    (now : UInt64) (i : Slot) (t' : Table) (sent : List Bytes) (info : InitiationInfo) (r₁ r₂ : Responder)
    (out : Bytes) : Prop where
  reads : (Responder.new S (KeyPair.fromSecret S secret)).readInitiation S datagram sig=(.ok info,r₁)
  writes : r₁.writeResponse S eph (UInt32.ofNat i) info.senderIndex sig zeroCookie=(.ok out,r₂)
  sentOnce : sent=[out]
  accepted : send out=true
  slotIndex : be32 (slice out off2SenderIndex 4)=UInt32.ofNat i
  echo : be32 (slice out off2ReceiverIndex 4)=be32 (slice datagram off1SenderIndex 4)
  first : t.position=some i
  free : t.slots i=none
  holds : t'.slots i=some ⟨(r₂.finalize S).sendKey,(r₂.finalize S).recvKey,(r₂.finalize S).handshakeHash,
    info.initiatorStaticPub,now⟩
  others : ∀j,j≠i → t'.slots j=t.slots j

/-- What a failure leaves: the table, and nothing sent unless it was the send that failed. -/
structure Fails (t : Table) (send : Bytes → Bool) (e : HandshakeError) (t' : Table) (sent : List Bytes) : Prop where
  table : t'=t
  silent : e≠.SendFailed → sent=[]
  refused : e=.SendFailed → ∃out,sent=[out] ∧ send out=false

section Process

variable (S : Suite) (t : Table) (datagram : Bytes) (secret sig eph : Key) (send : Bytes → Bool) (now : UInt64)

/-- Every way a datagram can be answered. -/
inductive Processed : Except HandshakeError Slot → Table → List Bytes → Prop
  | fails (e : HandshakeError) (t' : Table) (sent : List Bytes) (h : Fails t send e t' sent) :
      Processed (.error e) t' sent
  | commits (i : Slot) (t' : Table) (sent : List Bytes) (info : InitiationInfo) (r₁ r₂ : Responder) (out : Bytes)
      (h : Commits S t datagram secret sig eph send now i t' sent info r₁ r₂ out) : Processed (.ok i) t' sent

theorem processed : ∃res t' sent,processDatagram S t datagram secret sig eph send now=some (res,t',sent) ∧
    Processed S t datagram secret sig eph send now res t' sent := by
  have hquiet : ∀e,e≠.SendFailed → Processed S t datagram secret sig eph send now (.error e) t [] := by
    intro e he
    exact .fails e t [] ⟨rfl,fun _ => rfl,fun h => absurd h he⟩
  rw [processDatagram]
  by_cases hm : datagram.length≠msg1Size ∨ datagram.head?≠some 1
  · rw [if_pos hm]
    exact ⟨_,_,_,rfl,hquiet _ (by decide)⟩
  rw [if_neg hm]
  cases hfree : t.hasFree with
  | false =>
    rw [if_pos rfl]
    exact ⟨_,_,_,rfl,hquiet _ (by decide)⟩
  | true =>
    rw [if_neg (by decide)]
    obtain ⟨i,hi⟩ := position_of_hasFree t hfree
    cases hr : (Responder.new S (KeyPair.fromSecret S secret)).readInitiation S datagram sig with
    | mk res r₁ =>
      cases res with
      | error e =>
        simp only [hr]
        exact ⟨_,_,_,rfl,hquiet .Refused (by decide)⟩
      | ok info =>
        simp only [hr,hi]
        cases hw : r₁.writeResponse S eph (UInt32.ofNat i) info.senderIndex sig zeroCookie with
        | mk res r₂ =>
          cases res with
          | error e =>
            simp only
            exact ⟨_,_,_,rfl,hquiet .Refused (by decide)⟩
          | ok out =>
            simp only
            cases hsend : send out with
            | false =>
              rw [if_pos rfl]
              exact ⟨_,_,_,rfl,.fails _ t [out] ⟨rfl,fun h => absurd rfl h,fun _ => ⟨out,rfl,hsend⟩⟩⟩
            | true =>
              rw [if_neg (by decide),Table.commit,hi]
              refine ⟨_,_,_,rfl,.commits i _ _ info r₁ r₂ out ?_⟩
              obtain ⟨hs,he⟩ := writeResponse_indices S r₁ r₂ eph sig _ _ zeroCookie out hw
              constructor
              · exact hr
              · exact hw
              · rfl
              · exact hsend
              · exact hs
              · rw [he,readInitiation_index S _ r₁ datagram sig info hr]
              · exact hi
              · exact position_free t i hi
              · exact Function.update_self _ _ _
              · intro j hj
                exact Function.update_of_ne hj _ _

/-- One commit or nothing: a failed exchange leaves the table, and before the send it
is silent; an exchange that ends well sends one message and fills one free slot. -/
theorem handshake_single_commit :
    ∃res t' sent,processDatagram S t datagram secret sig eph send now=some (res,t',sent) ∧
      (∀e,res=.error e → Fails t send e t' sent) ∧
      (∀i,res=.ok i → ∃info r₁ r₂ out,Commits S t datagram secret sig eph send now i t' sent info r₁ r₂ out) := by
  obtain ⟨res,t',sent,hp,h⟩ := processed S t datagram secret sig eph send now
  refine ⟨res,t',sent,hp,?_,?_⟩
  · intro e he
    cases h with
    | fails e' t' sent h =>
      cases he
      exact h
    | commits i t' sent info r₁ r₂ out h => cases he
  · intro i hi
    cases h with
    | fails e t' sent h => cases hi
    | commits i' t' sent info r₁ r₂ out h =>
      cases hi
      exact ⟨info,r₁,r₂,out,h⟩

/-- A datagram is refused as TableFull when it is a first message at a full table, and its
session is committed when it is answered; neither happens otherwise. -/
theorem processDatagram_ends {res : Except HandshakeError Slot} {t' : Table} {sent : List Bytes}
    (h : processDatagram S t datagram secret sig eph send now=some (res,t',sent)) :
    (res=.error .TableFull ↔ datagram.length=msg1Size ∧ datagram.head?=some 1 ∧ t.hasFree=false) ∧
    ((∃i,res=.ok i) ↔ t.answers S datagram secret sig eph send=true) := by
  have hanswers := Table.answers.eq_def S t datagram secret sig eph send
  rw [processDatagram] at h
  by_cases hkind : datagram.length≠msg1Size ∨ datagram.head?≠some 1
  · rw [if_pos hkind] at h
    have hn : ¬(datagram.length=msg1Size ∧ datagram.head?=some 1) :=
      fun he => hkind.elim (absurd he.1) (absurd he.2)
    rw [decide_eq_false hn,Bool.false_and] at hanswers
    cases h
    rw [hanswers]
    exact ⟨⟨fun he => (by cases he),fun he => absurd ⟨he.1,he.2.1⟩ hn⟩,⟨fun he => (by cases he.choose_spec),
      fun he => (by cases he)⟩⟩
  obtain ⟨hlen,hhead⟩ := not_or.mp hkind
  have hy : datagram.length=msg1Size ∧ datagram.head?=some 1 := ⟨not_not.mp hlen,not_not.mp hhead⟩
  rw [if_neg hkind] at h
  rw [decide_eq_true hy,Bool.true_and] at hanswers
  cases hi : t.position with
  | none =>
    have hfree : t.hasFree=false := by
      rw [Bool.eq_false_iff]
      intro hf
      obtain ⟨i,hp⟩ := position_of_hasFree t hf
      rw [hi] at hp
      cases hp
    rw [hi] at hanswers
    rw [hfree,if_pos rfl] at h
    cases h
    rw [hanswers]
    exact ⟨⟨fun _ => ⟨hy.1,hy.2,hfree⟩,fun _ => rfl⟩,⟨fun he => (by cases he.choose_spec),fun he => (by cases he)⟩⟩
  | some i =>
    have hfree := hasFree_of_position t i hi
    have hshort : ∀e : HandshakeError,e≠.TableFull → res=.error e → t.answers S datagram secret sig eph send=false →
        (res=.error .TableFull ↔ datagram.length=msg1Size ∧ datagram.head?=some 1 ∧ t.hasFree=false) ∧
        ((∃i,res=.ok i) ↔ t.answers S datagram secret sig eph send=true) := by
      intro e he hres ha
      rw [hres,ha,hfree]
      exact ⟨⟨fun h => absurd (Except.error.inj h) he,fun h => absurd h.2.2 (by decide)⟩,
        ⟨fun h => (by cases h.choose_spec),fun h => absurd h (by decide)⟩⟩
    rw [hi] at hanswers
    rw [hfree,if_neg (by decide)] at h
    dsimp only at h hanswers
    generalize (Responder.new S (KeyPair.fromSecret S secret)).readInitiation S datagram sig=read at h hanswers
    obtain ⟨info,r₁⟩ := read
    cases info with
    | error _ =>
      cases h
      exact hshort .Refused (by decide) rfl hanswers
    | ok info =>
      rw [hi] at h
      dsimp only at h hanswers
      generalize r₁.writeResponse S eph (UInt32.ofNat i) info.senderIndex sig zeroCookie=written at h hanswers
      obtain ⟨out,r₂⟩ := written
      cases out with
      | error _ =>
        cases h
        exact hshort .Refused (by decide) rfl hanswers
      | ok out =>
        dsimp only at h hanswers
        by_cases hsend : send out=false
        · rw [if_pos hsend] at h
          cases h
          exact hshort .SendFailed (by decide) rfl (hanswers.trans hsend)
        · rw [if_neg hsend] at h
          obtain ⟨c,_,heq⟩ := Option.map_eq_some_iff.mp h
          cases heq
          rw [hanswers,hfree]
          exact ⟨⟨fun he => (by cases he),fun he => absurd he.2.2 (by decide)⟩,
            ⟨fun _ => (by simpa using hsend),fun _ => ⟨c.1,rfl⟩⟩⟩

end Process

section Exchange

variable (S : Suite) (si sr ei er sig : Key) (index : UInt32) (ts : UInt64) (cookie : Mac)
  (t : Table) (i : Slot) (send : Bytes → Bool) (now : UInt64)

/-- No shared secret of the exchange is zero. -/
structure NonzeroSecrets : Prop where
  es : S.x25519 ei (KeyPair.fromSecret S sr).pub≠zeroKey
  ss : S.x25519 si (KeyPair.fromSecret S sr).pub≠zeroKey
  ee : S.x25519 ei (KeyPair.fromSecret S er).pub≠zeroKey
  se : S.x25519 si (KeyPair.fromSecret S er).pub≠zeroKey

/-- The session the responder keeps of an exchange. -/
def agreed : Session :=
  let sym := (secondMixed S si sr ei er ts).2
  ⟨(sym.split S).2,(sym.split S).1,sym.h,(KeyPair.fromSecret S si).pub,now⟩

/-- A first message that the initiator wrote is answered, and its session committed. -/
theorem processDatagram_sent (hS : S.Laws) (hn : NonzeroSecrets S si sr ei er) (hi : t.position=some i)
    (hsend : send (sentMsg2 S si sr ei er sig index (UInt32.ofNat i) ts zeroCookie)=true) :
    processDatagram S t (sentMsg1 S si sr ei sig index ts cookie) sr sig er send now=
      some (.ok i,⟨Function.update t.slots i (some (agreed S si sr ei er ts now))⟩,
        [sentMsg2 S si sr ei er sig index (UInt32.ofNat i) ts zeroCookie]) := by
  have hf := sentMsg1_fields S si sr ei sig index ts cookie hS
  have ha := agreement S si sr ei er sig index (UInt32.ofNat i) ts cookie zeroCookie hS hn.es hn.ss hn.ee hn.se
  have hkind : ¬((sentMsg1 S si sr ei sig index ts cookie).length≠msg1Size ∨
      (sentMsg1 S si sr ei sig index ts cookie).head?≠some 1) := by
    rw [hf.length,hf.kind]
    simp
  rw [processDatagram,if_neg hkind,hasFree_of_position t i hi,if_neg (by decide)]
  simp only [ha.reads1,hi,ha.writes2,hsend,Bool.true_eq_false,if_false,Table.commit,Option.map_some]
  rfl

end Exchange

end Bolina.Handshake
