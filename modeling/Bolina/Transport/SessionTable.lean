import Bolina.Transport.Session
import Mathlib.Logic.Function.Basic

namespace Bolina.Transport

abbrev maxSessions : Nat := 512

@[ext] structure SessionTable where
  slots : Fin maxSessions → Session

def SessionTable.new : SessionTable := ⟨fun _ => Session.new⟩

def SessionTable.lookup (t : SessionTable) (localIndex : UInt32) : Option Session :=
  if h : localIndex.toNat < maxSessions then
    if (t.slots ⟨localIndex.toNat,h⟩).inUse then some (t.slots ⟨localIndex.toNat,h⟩) else none
  else none

/-- Writes through the reference that a lookup gave. -/
def SessionTable.put (t : SessionTable) (localIndex : UInt32) (s : Session) : SessionTable :=
  if h : localIndex.toNat < maxSessions then ⟨Function.update t.slots ⟨localIndex.toNat,h⟩ s⟩ else t

/-- The session an admission writes over a slot: every field is set. -/
def admittedSession (localIndex peerIndex : UInt32) (sendKey recvKey handshakeHash : Key) (nowMs : UInt64) : Session where
  localIndex
  peerIndex
  send := { CipherState.new with key := sendKey }
  recv := { RecvState.new with key := recvKey }
  handshakeHash
  keyEpochMs := nowMs
  bound := false
  inUse := true

def SessionTable.admit (t : SessionTable) (localIndex peerIndex : UInt32) (sendKey recvKey handshakeHash : Key)
    (nowMs : UInt64) : Except TransportError Unit × SessionTable :=
  if h : localIndex.toNat < maxSessions then
    if (t.slots ⟨localIndex.toNat,h⟩).inUse then (.error .SlotFull,t)
    else
      (.ok (),t.put localIndex (admittedSession localIndex peerIndex sendKey recvKey handshakeHash nowMs))
  else (.error .OutOfRange,t)

def SessionTable.release (t : SessionTable) (localIndex : UInt32) : SessionTable :=
  if h : localIndex.toNat < maxSessions then
    t.put localIndex { t.slots ⟨localIndex.toNat,h⟩ with
      send := CipherState.new
      recv := RecvState.new
      handshakeHash := zeroKey
      bound := false
      inUse := false }
  else t

section Table

variable (t : SessionTable) (i j : UInt32)

theorem lookup_range (s : Session) (h : t.lookup i=some s) : i.toNat < maxSessions := by
  rw [SessionTable.lookup] at h
  by_contra hn
  rw [dif_neg hn] at h
  cases h

theorem lookup_inUse (s : Session) (h : t.lookup i=some s) : s.inUse=true := by
  have hi := lookup_range t i s h
  rw [SessionTable.lookup,dif_pos hi] at h
  by_cases hu : (t.slots ⟨i.toNat,hi⟩).inUse=true
  · rw [if_pos hu] at h
    cases h
    exact hu
  · rw [if_neg hu] at h
    cases h

theorem lookup_put_self (s : Session) (hi : i.toNat < maxSessions) :
    (t.put i s).lookup i=if s.inUse then some s else none := by
  rw [SessionTable.put,dif_pos hi,SessionTable.lookup,dif_pos hi]
  simp only [Function.update_self]

theorem lookup_put_of_ne (s : Session) (h : j≠i) : (t.put i s).lookup j=t.lookup j := by
  rw [SessionTable.put]
  by_cases hi : i.toNat < maxSessions
  · rw [dif_pos hi,SessionTable.lookup,SessionTable.lookup]
    by_cases hj : j.toNat < maxSessions
    · have hne : (⟨j.toNat,hj⟩ : Fin maxSessions)≠⟨i.toNat,hi⟩ := by
        intro he
        exact h (UInt32.toNat_inj.mp (Fin.mk.inj he))
      rw [dif_pos hj,dif_pos hj]
      simp only [Function.update_of_ne hne]
    · rw [dif_neg hj,dif_neg hj]
  · rw [dif_neg hi]

theorem admit_of_free (peer : UInt32) (sendKey recvKey hash : Key) (now : UInt64) (hi : i.toNat < maxSessions)
    (h : t.lookup i=none) :
    t.admit i peer sendKey recvKey hash now=(.ok (),t.put i (admittedSession i peer sendKey recvKey hash now)) := by
  rw [SessionTable.lookup,dif_pos hi] at h
  rw [ SessionTable.admit,dif_pos hi]
  by_cases hu : (t.slots ⟨i.toNat,hi⟩).inUse=true
  · rw [if_pos hu] at h
    cases h
  · rw [if_neg hu]

@[simp] theorem lookup_release_self : (t.release i).lookup i=none := by
  rw [SessionTable.release]
  by_cases hi : i.toNat < maxSessions
  · rw [dif_pos hi,lookup_put_self _ _ _ hi]
    rfl
  · rw [dif_neg hi,SessionTable.lookup,dif_neg hi]

theorem lookup_release_of_ne (h : j≠i) : (t.release i).lookup j=t.lookup j := by
  rw [SessionTable.release]
  by_cases hi : i.toNat < maxSessions
  · rw [dif_pos hi,lookup_put_of_ne _ _ _ _ h]
  · rw [dif_neg hi]

theorem lookup_new : SessionTable.new.lookup i=none := by
  rw [SessionTable.lookup]
  split <;> rfl

end Table

end Bolina.Transport
