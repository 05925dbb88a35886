import Bolina.Transport.CheckedNoise
import Bolina.Transport.Handshake
import Bolina.Transport.SessionTable

namespace Bolina.Checked

open BigEndian Panic Transport
open Noise (Suite KeyPair msg1Size)
open Handshake (HandshakeError Slot zeroCookie)

/-- The mask of a window that moves up. -/
def movedMask (mask shift : UInt64) : Option UInt64 := if 64 ≤ shift then some 0 else shl64 mask shift

def windowCheck (w : ReplayWindow) (counter : UInt64) : Option (Bool × ReplayWindow) := do
  if w.highest=0 then return (true,⟨counter,1⟩)
  else if w.highest < counter then
    let shift ← sub64 counter w.highest
    let mask ← movedMask w.mask shift
    return (true,⟨counter,mask|||1⟩)
  else if counter=w.highest then return (false,w)
  else
    let behind ← sub64 w.highest counter
    if 64 ≤ behind then return (false,w)
    else
      let bit ← shl64 1 behind
      if w.mask&&&bit≠0 then return (false,w) else return (true,⟨w.highest,w.mask|||bit⟩)

section Sessions

variable (A : Aead)

def recvOpen (rs : RecvState) (out ad ct : Bytes) (counter : UInt64) :
    Option (Except TransportError (Nat × Bytes) × RecvState) := do
  if ct.length < 16 then return (.error .DecryptFailed,rs)
  else
    let ptLen ← sub ct.length 16
    if out.length < ptLen then return (.error .OutOfRange,rs)
    else
      let key ← exact rs.key.toList 32
      let nonce ← exact (← transportNonce counter) 12
      match A.decrypt key nonce.toList ct ad with
      | none => return (.error .DecryptFailed,rs)
      | some pt =>
        match ← windowCheck rs.window counter with
        | (false,window) => return (.error .Replay,{ rs with window })
        | (true,window) =>
          let out ← copyTo out pt 0 pt.length
          return (.ok (ptLen,out),{ rs with window })

def sessionOpen (s : Session) (packet : Bytes) (hdrCounter : UInt64) (out : Bytes) :
    Option (Except TransportError (Nat × Bytes) × Session) := do
  if packet.length < headerSize then return (.error .OutOfRange,s)
  else
    let ad ← range packet 0 headerSize
    let ct ← range packet headerSize packet.length
    let (r,recv) ← recvOpen A s.recv out ad ct hdrCounter
    return (r,{ s with recv })

def lookup (t : SessionTable) (localIndex : UInt32) : Option (Option Session) := do
  if maxSessions ≤ localIndex.toNat then return none
  else
    let slot ← place t.slots localIndex.toNat
    if slot.inUse then return some slot else return none

def admitSession (t : SessionTable) (localIndex peerIndex : UInt32) (sendKey recvKey handshakeHash : Key) (nowMs : UInt64) :
    Option (Except TransportError Unit × SessionTable) := do
  if maxSessions ≤ localIndex.toNat then return (.error .OutOfRange,t)
  else
    let slot ← place t.slots localIndex.toNat
    if slot.inUse then return (.error .SlotFull,t)
    else
      let slots ← setPlace t.slots localIndex.toNat
        (admittedSession localIndex peerIndex sendKey recvKey handshakeHash nowMs)
      return (.ok (),⟨slots⟩)

end Sessions

section Handshakes

variable (S : Suite)

def commit (t : Handshake.Table) (session : Handshake.Session) : Option (Slot × Handshake.Table) := do
  let slot ← t.position
  let slots ← setPlace t.slots slot (some session)
  return (slot,⟨slots⟩)

def processDatagram (table : Handshake.Table) (datagram : Bytes) (ownDhSecret ownSigPub ephSecret : Key)
    (send : Bytes → Bool) (nowMs : UInt64) :
    Option (Except HandshakeError Slot × Handshake.Table × List Bytes) := do
  if datagram.length≠msg1Size then return (.error .NotInitiation,table,[])
  else if (← index datagram 0)≠1 then return (.error .NotInitiation,table,[])
  else if table.hasFree=false then return (.error .TableFull,table,[])
  else
    let responder ← newResponder S (KeyPair.fromSecret S ownDhSecret)
    match ← readInitiation S responder datagram ownSigPub with
    | (.error _,_) => return (.error .Refused,table,[])
    | (.ok info,responder) =>
      let responderIndex ← table.position
      match ← writeResponse S responder ephSecret (UInt32.ofNat responderIndex) info.senderIndex ownSigPub
          zeroCookie with
      | (.error _,_) => return (.error .Refused,table,[])
      | (.ok out,responder) =>
        if send out=false then return (.error .SendFailed,table,[out])
        else
          let result ← finalize S responder
          let (slot,table) ← commit table
            ⟨result.sendKey,result.recvKey,result.handshakeHash,info.initiatorStaticPub,nowMs⟩
          return (.ok slot,table,[out])

end Handshakes

/-- What is decrypted is the message without its tag of 16 bytes. -/
def TagLast (A : Aead) : Prop := ∀k n ct ad pt,A.decrypt k n ct ad=some pt → pt.length+16=ct.length

theorem movedMask_eq (mask shift : UInt64) :
    movedMask mask shift=some (if 64 ≤ shift then 0 else mask<<<shift) := by
  rw [movedMask]
  split
  · rfl
  · exact if_pos (UInt64.not_le.mp ‹_›)

/-- Every difference the window takes is one of a number and a smaller one. -/
theorem windowCheck_eq (w : ReplayWindow) (counter : UInt64) : windowCheck w counter=some (w.check counter) := by
  rw [windowCheck,ReplayWindow.check]
  by_cases h0 : w.highest=0
  · rw [if_pos h0,if_pos h0]
    rfl
  rw [if_neg h0,if_neg h0]
  by_cases hlt : w.highest < counter
  · rw [if_pos hlt,if_pos hlt,sub64,if_pos (UInt64.le_of_lt hlt)]
    simp only [Option.bind_eq_bind,Option.bind_some,movedMask_eq]
    rfl
  rw [if_neg hlt,if_neg hlt]
  by_cases he : counter=w.highest
  · rw [if_pos he,if_pos he]
    rfl
  rw [if_neg he,if_neg he,sub64,if_pos (UInt64.not_lt.mp hlt)]
  simp only [Option.bind_eq_bind,Option.bind_some]
  by_cases hb : 64 ≤ w.highest-counter
  · rw [if_pos hb,if_pos hb]
    rfl
  rw [if_neg hb,if_neg hb,shl64,if_pos (UInt64.not_le.mp hb)]
  simp only [Option.bind_some]
  split <;> rfl

theorem recvOpen_eq {A : Aead} (hA : TagLast A) (rs : RecvState) (out ad ct : Bytes) (counter : UInt64) :
    recvOpen A rs out ad ct counter=some (rs.open A out ad ct counter) := by
  rw [recvOpen,RecvState.open]
  by_cases hshort : ct.length < 16
  · rw [if_pos hshort,if_pos hshort]
    rfl
  rw [if_neg hshort,if_neg hshort,sub_eq (Nat.not_lt.mp hshort)]
  simp only [Option.bind_eq_bind,Option.bind_some]
  by_cases hroom : out.length < ct.length-16
  · rw [if_pos hroom,if_pos hroom]
    rfl
  rw [if_neg hroom,if_neg hroom,exact_fixed rs.key.toList_length,transportNonce_eq]
  simp only [Option.bind_some]
  rw [nonce_exact]
  simp only [Option.bind_some,fixed_toList,nonce_toList]
  cases hd : A.decrypt rs.key (Transport.transportNonce counter) ct ad with
  | none => rfl
  | some pt =>
    have hpt := hA _ _ _ _ _ hd
    have hcopy := @copyTo_eq _ out pt 0 pt.length (Nat.zero_le _) (by omega) rfl
    dsimp only
    rw [windowCheck_eq]
    simp only [Option.bind_some]
    cases hw : rs.window.check counter with
    | mk fresh window =>
      cases fresh with
      | false => rfl
      | true =>
        dsimp only
        rw [hcopy]
        rfl

theorem sessionOpen_eq {A : Aead} (hA : TagLast A) (s : Session) (packet out : Bytes) (counter : UInt64) :
    sessionOpen A s packet counter out=some (s.open A packet counter out) := by
  rw [sessionOpen,Session.open]
  by_cases hshort : packet.length < headerSize
  · rw [if_pos hshort,if_pos hshort]
    rfl
  rw [if_neg hshort,if_neg hshort,range_front (Nat.not_lt.mp hshort),range_back (Nat.not_lt.mp hshort)]
  simp only [Option.bind_eq_bind,Option.bind_some,recvOpen_eq hA]
  rfl

theorem lookup_eq (t : SessionTable) (idx : UInt32) : lookup t idx=some (t.lookup idx) := by
  rw [lookup,SessionTable.lookup]
  by_cases h : idx.toNat < maxSessions
  · rw [if_neg (Nat.not_le.mpr h),dif_pos h,place,dif_pos h]
    simp only [Option.bind_eq_bind,Option.bind_some]
    split <;> rfl
  · rw [if_pos (Nat.not_lt.mp h),dif_neg h]
    rfl

theorem admitSession_eq (t : SessionTable) (idx peer : UInt32) (sendKey recvKey hash : Key) (now : UInt64) :
    admitSession t idx peer sendKey recvKey hash now=some ( t.admit idx peer sendKey recvKey hash now) := by
  rw [admitSession, SessionTable.admit]
  by_cases h : idx.toNat < maxSessions
  · rw [if_neg (Nat.not_le.mpr h),dif_pos h,place,dif_pos h]
    simp only [Option.bind_eq_bind,Option.bind_some]
    by_cases hu : (t.slots ⟨idx.toNat,h⟩).inUse=true
    · rw [if_pos hu,if_pos hu]
      rfl
    · rw [if_neg hu,if_neg hu,setPlace,dif_pos h,SessionTable.put,dif_pos h]
      rfl
  · rw [if_pos (Nat.not_lt.mp h),dif_neg h]
    rfl

theorem commit_eq (t : Handshake.Table) (session : Handshake.Session) : commit t session=t.commit session := by
  rw [commit,Handshake.Table.commit]
  cases t.position with
  | none => rfl
  | some slot =>
    simp only [Option.bind_eq_bind,Option.bind_some,setPlace_fin]
    rfl

/-- The table has the free slot that was counted on, each time it is looked for. -/
theorem processDatagram_eq {S : Suite} (hS : InPlace S) (table : Handshake.Table) (datagram : Bytes)
    (secret sig eph : Key) (send : Bytes → Bool) (now : UInt64) :
    processDatagram S table datagram secret sig eph send now=
      Handshake.processDatagram S table datagram secret sig eph send now := by
  rw [processDatagram,Handshake.processDatagram]
  by_cases hl : datagram.length=msg1Size
  · have hpos : 0 < datagram.length := by
      rw [hl]
      decide
    have hhead : datagram.head?=some datagram[0] := List.head?_eq_getElem?.trans (index_eq hpos)
    rw [if_neg (not_not.mpr hl),index_eq hpos]
    simp only [Option.bind_eq_bind,Option.bind_some]
    by_cases hk : datagram[0]=1
    · have hkind : ¬(datagram.length≠msg1Size ∨ datagram.head?≠some 1) := by
        rw [hhead,hk]
        simp [hl]
      rw [if_neg (not_not.mpr hk),if_neg hkind]
      by_cases hfull : table.hasFree=false
      · rw [if_pos hfull,if_pos hfull]
        rfl
      rw [if_neg hfull,if_neg hfull,newResponder_eq]
      simp only [Option.bind_some]
      rw [readInitiation_eq hS _ _ _ hl]
      simp only [Option.bind_some]
      cases (Noise.Responder.new S (KeyPair.fromSecret S secret)).readInitiation S datagram sig with
      | mk res responder =>
        cases res with
        | error e => rfl
        | ok info =>
          dsimp only
          cases table.position with
          | none => rfl
          | some slot =>
            simp only [Option.bind_some]
            rw [writeResponse_eq hS]
            simp only [Option.bind_some]
            cases responder.writeResponse S eph (UInt32.ofNat slot) info.senderIndex sig zeroCookie with
            | mk res responder =>
              cases res with
              | error e => rfl
              | ok out =>
                dsimp only
                split
                · rfl
                · rw [finalize_eq]
                  simp only [Option.bind_some,commit_eq]
                  cases table.commit _ <;> rfl
    · have hkind : datagram.length≠msg1Size ∨ datagram.head?≠some 1 := by
        rw [hhead]
        exact Or.inr (fun h => hk (Option.some.inj h))
      rw [if_pos hk,if_pos hkind]
      rfl
  · rw [if_pos hl,if_pos (Or.inl hl)]
    rfl

end Bolina.Checked
