import Bolina.Transport.SessionReplay
import Bolina.Transport.SessionTable

namespace Bolina.Transport

open BigEndian

/-- Both directions start over under the new keys. -/
def Session.rotate (s : Session) (sendKey recvKey handshakeHash : Key) (nowMs : UInt64) : Session :=
  { s with
    send := { CipherState.new with key := sendKey }
    recv := { RecvState.new with key := recvKey }
    handshakeHash
    keyEpochMs := nowMs }

/-- The calls that write the keys of a session. -/
inductive Install where
  | admitted (localIndex peerIndex : UInt32) (sendKey recvKey handshakeHash : Key) (nowMs : UInt64)
  | rotated (sendKey recvKey handshakeHash : Key) (nowMs : UInt64)
  | released

def Session.install (s : Session) : Install → Session
  | .admitted localIndex peerIndex sendKey recvKey handshakeHash nowMs =>
    admittedSession localIndex peerIndex sendKey recvKey handshakeHash nowMs
  | .rotated sendKey recvKey handshakeHash nowMs => s.rotate sendKey recvKey handshakeHash nowMs
  | .released =>
    { s with
      send := CipherState.new
      recv := RecvState.new
      handshakeHash := zeroKey
      bound := false
      inUse := false }

/-- What happens to a session while its keys stay. -/
inductive Use where
  | sealing (out plaintext : Bytes)
  | opening (packet : Bytes) (hdrCounter : UInt64) (out : Bytes)
  | binding

def Session.use (A : Aead) (s : Session) : Use → Session
  | .sealing out plaintext => (s.seal A out plaintext).2
  | .opening packet hdrCounter out => (s.open A packet hdrCounter out).2
  | .binding => { s with bound := true }

/-- One successful `seal`: the nonce it encrypted under and the packet it wrote. -/
structure Shipment where
  nonce : Bytes
  packet : Bytes

def Shipment.counter (x : Shipment) : UInt64 := headerCounter x.packet

/-- The successful `seal` calls of a run. -/
def shipped (A : Aead) : Session → List Use → List Shipment
  | _,[] => []
  | s,u::us =>
    match u with
    | .sealing out plaintext =>
      match (s.seal A out plaintext).1 with
      | .ok (total,buf) => ⟨transportNonce s.send.counter,buf.take total⟩::shipped A (s.use A u) us
      | .error _ => shipped A (s.use A u) us
    | _ => shipped A (s.use A u) us

/-- Shipments under one key: each packet's header carries the counter that its nonce is made of,
and the counters go up from the session's own, one by one, below the bound. -/
structure Ordered (A : Aead) (s : Session) (log : List Shipment) : Prop where
  header : ∀x∈log,x.nonce=transportNonce x.counter
  encrypted : ∀x∈log,∃plaintext ct,A.encrypt s.send.key x.nonce plaintext (x.packet.take headerSize)=some ct
  rising : log.map (fun x => x.counter.toNat)=List.range' s.send.counter.toNat log.length
  bounded : ∀x∈log,x.counter.toNat < 2^48

/-- How a run under one key spends its nonces. -/
structure NonceDiscipline (A : Aead) (s : Session) (us : List Use) : Prop extends Ordered A s (shipped A s us) where
  distinct : ((shipped A s us).map Shipment.nonce).Nodup
  unchanged : ∀before rest out plaintext e,us=before++.sealing out plaintext::rest →
    ((before.foldl (Session.use A) s).seal A out plaintext).1=.error e →
      ((before.foldl (Session.use A) s).seal A out plaintext).2=before.foldl (Session.use A) s

section Seal

variable (A : Aead) (s : Session)

theorem transportNonce_injective (c d : UInt64) (h : transportNonce c=transportNonce d) : c=d := by
  have hput : put64 c=put64 d := List.append_cancel_left h
  have hbe := congrArg be64 hput
  rwa [be64_put64,be64_put64] at hbe

/-- A `seal` fails and leaves the session, or sends one packet under the counter and moves it. -/
theorem seal_cases (out plaintext : Bytes) :
    (∃e,s.seal A out plaintext=(.error e,s)) ∨
      ∃total buf ct,s.seal A out plaintext=
          (.ok (total,s.header++buf),{ s with send := { s.send with counter := s.send.counter+1 } }) ∧
        headerSize ≤ total ∧ ¬rekeyAfterMessages ≤ s.send.counter ∧
        A.encrypt s.send.key (transportNonce s.send.counter) plaintext s.header=some ct := by
  rw [seal_eq]
  by_cases hlen : out.length < headerSize+plaintext.length+16
  · exact .inl ⟨.OutOfRange,if_pos hlen⟩
  by_cases hk : rekeyAfterMessages ≤ s.send.counter
  · exact .inl ⟨.RekeyRequired,by rw [if_neg hlen,if_pos hk]⟩
  rw [if_neg hlen,if_neg hk]
  cases hct : A.encrypt s.send.key (transportNonce s.send.counter) plaintext s.header with
  | none => exact .inl ⟨.DecryptFailed,rfl⟩
  | some ct =>
    let total := headerSize+plaintext.length+16
    let buf := ct++(((out.take total).drop headerSize).drop ct.length++out.drop total)
    refine .inr ⟨total,buf,ct,?_,by omega,hk,rfl⟩
    simp only [buf,total,List.append_assoc]

/-- A packet that is cut at its length still carries the header in front. -/
theorem take_header (total : Nat) (buf : Bytes) (h : headerSize ≤ total) :
    ((s.header++buf).take total).take headerSize=s.header ∧
      headerCounter ((s.header++buf).take total)=s.send.counter := by
  have hl := s.header_length
  have hcut : (s.header++buf).take total=s.header++buf.take (total-headerSize) := by
    rw [List.take_append,hl,List.take_of_length_le (hl.le.trans h)]
  constructor
  · rw [hcut,← hl,List.take_left]
  · rw [hcut]
    exact headerCounter_header s _

theorem use_send (u : Use) (h : ∀out plaintext,u≠.sealing out plaintext) : (s.use A u).send=s.send := by
  cases u with
  | sealing out plaintext => exact absurd rfl (h out plaintext)
  | opening packet hdrCounter out =>
    rw [Session.use,(Session.open_frame A s packet out hdrCounter).1]
  | binding => rfl

end Seal

section Run

variable {A : Aead} {s : Session}

theorem shipped_of_quiet (u : Use) (us : List Use) (h : ∀out plaintext,u≠.sealing out plaintext) :
    shipped A s (u::us)=shipped A (s.use A u) us := by
  cases u with
  | sealing out plaintext => exact absurd rfl (h out plaintext)
  | opening packet hdrCounter out => rfl
  | binding => rfl

theorem Ordered.of_send {s' : Session} {log : List Shipment} (h : Ordered A s' log) (hs : s'.send=s.send) :
    Ordered A s log where
  header := h.header
  encrypted := by
    have hkey : s'.send.key=s.send.key := congrArg CipherState.key hs
    intro x hx
    rw [← hkey]
    exact h.encrypted x hx
  rising := by
    have hcounter : s'.send.counter=s.send.counter := congrArg CipherState.counter hs
    rw [← hcounter]
    exact h.rising
  bounded := h.bounded

/-- One more packet in front, under the counter before. -/
theorem Ordered.cons {log : List Shipment} (total : Nat) (buf plaintext ct : Bytes) (ht : headerSize ≤ total)
    (hk : ¬rekeyAfterMessages ≤ s.send.counter)
    (hct : A.encrypt s.send.key (transportNonce s.send.counter) plaintext s.header=some ct)
    (h : Ordered A { s with send := { s.send with counter := s.send.counter+1 } } log) :
    Ordered A s (⟨transportNonce s.send.counter,(s.header++buf).take total⟩::log) := by
  obtain ⟨hheader,hcounter⟩ := take_header s total buf ht
  have hc : Shipment.counter ⟨transportNonce s.send.counter,(s.header++buf).take total⟩=s.send.counter := hcounter
  have hsucc := counter_succ s hk
  have hbound : s.send.counter.toNat < 2^48 := by
    apply Nat.lt_of_not_le
    intro hle
    exact hk (UInt64.le_iff_toNat_le.mpr hle)
  refine ⟨?_,?_,?_,?_⟩
  · intro x hx
    cases List.mem_cons.mp hx with
    | inl he =>
      rw [he]
      exact congrArg transportNonce hc.symm
    | inr hx => exact h.header x hx
  · intro x hx
    cases List.mem_cons.mp hx with
    | inl he =>
      rw [he]
      refine ⟨plaintext,ct,?_⟩
      show A.encrypt _ _ _ (((s.header++buf).take total).take headerSize)=_
      rw [hheader]
      exact hct
    | inr hx => exact h.encrypted x hx
  · have hrising := h.rising
    rw [hsucc] at hrising
    rw [List.map_cons,hrising,hc,List.length_cons,List.range'_succ]
  · intro x hx
    cases List.mem_cons.mp hx with
    | inl he =>
      rw [he,hc]
      exact hbound
    | inr hx => exact h.bounded x hx

theorem ordered_run (s : Session) (us : List Use) : Ordered A s (shipped A s us) := by
  induction us generalizing s with
  | nil =>
    refine ⟨?_,?_,rfl,?_⟩
    all_goals
      intro x hx
      exact absurd hx List.not_mem_nil
  | cons u us ih =>
    by_cases hu : ∀out plaintext,u≠.sealing out plaintext
    · rw [shipped_of_quiet u us hu]
      exact (ih (s.use A u)).of_send (use_send A s u hu)
    · simp only [not_forall,not_not] at hu
      obtain ⟨out,plaintext,rfl⟩ := hu
      obtain ⟨e,he⟩ | ⟨total,buf,ct,hok,ht,hk,hct⟩ := seal_cases A s out plaintext
      · have hnext := ih s
        simpa only [shipped,Session.use,he] using hnext
      · have hnext := ih { s with send := { s.send with counter := s.send.counter+1 } }
        simpa only [shipped,Session.use,hok] using hnext.cons total buf plaintext ct ht hk hct

/-- Counters that are consecutive are distinct, and so are their nonces. -/
theorem Ordered.distinct {log : List Shipment} (h : Ordered A s log) : (log.map Shipment.nonce).Nodup := by
  have hcounters : ((log.map Shipment.counter).map UInt64.toNat).Nodup := by
    rw [List.map_map]
    have hrising : log.map (UInt64.toNat ∘ Shipment.counter)=List.range' s.send.counter.toNat log.length := h.rising
    rw [hrising]
    exact List.nodup_range'
  have hnonce : log.map Shipment.nonce=(log.map Shipment.counter).map transportNonce := by
    rw [List.map_map]
    exact List.map_congr_left h.header
  rw [hnonce]
  exact hcounters.of_map.map (fun c d => transportNonce_injective c d)

end Run

/-- Under one key no nonce comes twice: the packets that a session seals carry the counters that
follow its own, each the nonce of its packet, below the bound; a failed call changes nothing, and
every new key starts at zero. -/
theorem nonces_never_reused (A : Aead) (s : Session) (us : List Use) :
    NonceDiscipline A s us ∧ ∀i,(s.install i).send.counter=0 := by
  have h := ordered_run (A := A) s us
  constructor
  · refine ⟨h,h.distinct,?_⟩
    intro before rest out plaintext e _ herr
    obtain ⟨e',he⟩ | ⟨total,buf,ct,hok,_⟩ := seal_cases A (before.foldl (Session.use A) s) out plaintext
    · rw [he]
    · rw [hok] at herr
      cases herr
  · intro i
    cases i <;> rfl

end Bolina.Transport
