import Bolina.Framework.FixedBytes

namespace Bolina

open BigEndian

namespace Relay

def msgRelayRoute : UInt8 := 5
def msgRelayRegistration : UInt8 := 6
def lenRelayRoute : Nat := 20
def lenRelayRegistration : Nat := 124
def maxExpiry : Nat := 86400

inductive RelayError where
  | WrongType
  | NonZeroReserved
  | TrailingBytes
  | Truncated
  | ExpiryTooLong
  | StaleRoute
  | UnknownRecipient
  deriving DecidableEq,Repr

structure RelayRoute where
  senderIndex : UInt32
  recipientIndex : UInt32
  timestamp : UInt64
  deriving DecidableEq

/-- The three bytes behind the type are zero. -/
def reservedZero (buf : Bytes) : Bool := slice buf 1 3==[0,0,0]

def RelayRoute.parse (buf : Bytes) : Except RelayError RelayRoute :=
  if buf.length≠lenRelayRoute then .error .Truncated
  else if buf.head?≠some msgRelayRoute then .error .WrongType
  else if reservedZero buf=false then .error .NonZeroReserved
  else .ok ⟨be32 (slice buf 4 4),be32 (slice buf 8 4),be64 (slice buf 12 8)⟩

/-- The bytes that are written to the front of the buffer. -/
def RelayRoute.bytes (r : RelayRoute) : Bytes :=
  [msgRelayRoute]++[0,0,0]++put32 r.senderIndex++put32 r.recipientIndex++put64 r.timestamp

/-- `none` is the panic on a buffer that is too short. -/
def RelayRoute.encode (r : RelayRoute) (out : Bytes) : Option Bytes :=
  if out.length < lenRelayRoute then none else some (r.bytes++out.drop lenRelayRoute)

structure RelayRegistration where
  relayIndex : UInt32
  clientIndex : UInt32
  timestamp : UInt64
  overlayAddr : Bytes
  expiry : UInt64
  sig : Bytes
  tbsLen : Nat
  deriving DecidableEq

def RelayRegistration.parse (buf : Bytes) : Except RelayError RelayRegistration :=
  if buf.length≠lenRelayRegistration then .error .Truncated
  else if buf.head?≠some msgRelayRegistration then .error .WrongType
  else if reservedZero buf=false then .error .NonZeroReserved
  else
    let expiry := be64 (slice buf 36 8)
    if maxExpiry < expiry.toNat then .error .ExpiryTooLong
    else
      .ok { relayIndex := be32 (slice buf 4 4)
            clientIndex := be32 (slice buf 8 4)
            timestamp := be64 (slice buf 12 8)
            overlayAddr := slice buf 20 16
            expiry
            sig := slice buf 44 64
            tbsLen := lenRelayRegistration-64-16 }

end Relay

namespace RelayServe

def msgRelayRoute : UInt8 := 0x10
def msgRelayRegistration : UInt8 := 0x11
def msgHandshakeInit : UInt8 := 1
def msgHandshakeResp : UInt8 := 2
def msgHandshakeData : UInt8 := 3

inductive ServeResult where
  | ToHandshake
  | Forwarded
  | Stored
  | Registered
  | Drained
  | Dropped
  deriving DecidableEq,Repr

def classifyDatagram (dgram : Bytes) : ServeResult :=
  match dgram with
  | [] => .Dropped
  | b::_ =>
    if b=msgHandshakeInit ∨ b=msgHandshakeResp ∨ b=msgHandshakeData then .ToHandshake
    else if b=msgRelayRoute then .Forwarded
    else if b=msgRelayRegistration then .Registered
    else .Dropped

end RelayServe

namespace Relay

open RelayServe (classifyDatagram)

/-- The parsers and the classifier say one thing of a buffer. -/
structure Agrees (buf : Bytes) : Prop where
  route : ∀r out,out.length=lenRelayRoute → RelayRoute.encode r out=some buf →
    RelayRoute.parse buf=.ok r ∧ classifyDatagram buf=.Forwarded
  registration : ∀g,RelayRegistration.parse buf=.ok g → classifyDatagram buf=.Registered
  forwarded : classifyDatagram buf=.Forwarded → buf.length=lenRelayRoute → reservedZero buf=true →
    buf.head?=some msgRelayRoute
  registered : classifyDatagram buf=.Registered → buf.length=lenRelayRegistration → reservedZero buf=true →
    buf.head?=some msgRelayRegistration

/-- The classifier's verdict is on the first byte, against its own two types. -/
theorem classify_iff (buf : Bytes) :
    (classifyDatagram buf=.Forwarded ↔ buf.head?=some RelayServe.msgRelayRoute) ∧
    (classifyDatagram buf=.Registered ↔ buf.head?=some RelayServe.msgRelayRegistration) := by
  cases buf with
  | nil => exact ⟨by decide,by decide⟩
  | cons b rest =>
    rw [List.head?_cons,classifyDatagram]
    by_cases hh : b=RelayServe.msgHandshakeInit ∨ b=RelayServe.msgHandshakeResp ∨ b=RelayServe.msgHandshakeData
    · rw [if_pos hh]
      obtain rfl|rfl|rfl := hh <;> decide
    · rw [if_neg hh]
      by_cases hr : b=RelayServe.msgRelayRoute
      · rw [if_pos hr,hr]
        decide
      · rw [if_neg hr]
        by_cases hg : b=RelayServe.msgRelayRegistration
        · rw [if_pos hg,hg]
          decide
        · simp [hr,hg]

theorem bytes_length (r : RelayRoute) : r.bytes.length=lenRelayRoute := by
  simp [RelayRoute.bytes,lenRelayRoute]

/-- What is written reads back. -/
theorem parse_bytes (r : RelayRoute) : RelayRoute.parse r.bytes=.ok r := by
  have hlen := bytes_length r
  have hhead : r.bytes.head?=some msgRelayRoute := rfl
  have hreserved : reservedZero r.bytes=true := rfl
  have hsender : slice r.bytes 4 4=put32 r.senderIndex := by
    have h := slice_mid ([msgRelayRoute]++[0,0,0]) (put32 r.senderIndex) (put32 r.recipientIndex++put64 r.timestamp)
    simpa [RelayRoute.bytes] using h
  have hrecipient : slice r.bytes 8 4=put32 r.recipientIndex := by
    have h := slice_mid ([msgRelayRoute]++[0,0,0]++put32 r.senderIndex) (put32 r.recipientIndex) (put64 r.timestamp)
    simpa [RelayRoute.bytes] using h
  have htimestamp : slice r.bytes 12 8=put64 r.timestamp := by
    have h := slice_mid ([msgRelayRoute]++[0,0,0]++put32 r.senderIndex++put32 r.recipientIndex) (put64 r.timestamp) []
    simpa [RelayRoute.bytes] using h
  rw [RelayRoute.parse,if_neg (not_not.mpr hlen),if_neg (not_not.mpr hhead),if_neg (by rw [hreserved]; decide),
    hsender,hrecipient,htimestamp,be32_put32,be32_put32,be64_put64]

/-- A field read behind another one, and what is left. -/
theorem take_slice (buf : Bytes) (off n : Nat) : slice buf off n++buf.drop (off+n)=buf.drop off := by
  rw [slice,← List.drop_drop,List.take_append_drop]

/-- A buffer of a route's length, type and reserved bytes is one that is written. -/
theorem written_of_fields {buf : Bytes} (hlen : buf.length=lenRelayRoute) (hhead : buf.head?=some msgRelayRoute)
    (hreserved : reservedZero buf=true) : ∃r : RelayRoute,r.bytes=buf := by
  have hl : buf.length=20 := hlen
  refine ⟨⟨be32 (slice buf 4 4),be32 (slice buf 8 4),be64 (slice buf 12 8)⟩,?_⟩
  have hfield (off n : Nat) (h : off+n ≤ 20) : (slice buf off n).length=n := by
    rw [slice,List.length_take,List.length_drop]
    omega
  have hzero : slice buf 1 3=[0,0,0] := by simpa [reservedZero] using hreserved
  have hfront : [msgRelayRoute]++buf.drop 1=buf := by
    cases buf with
    | nil => cases hhead
    | cons b rest =>
      rw [List.head?_cons,Option.some.injEq] at hhead
      rw [hhead]
      rfl
  have hend : buf.drop 20=[] := by rw [List.drop_eq_nil_iff,hl]
  calc RelayRoute.bytes ⟨be32 (slice buf 4 4),be32 (slice buf 8 4),be64 (slice buf 12 8)⟩
      =[msgRelayRoute]++(slice buf 1 3++(slice buf 4 4++(slice buf 8 4++(slice buf 12 8++buf.drop 20)))) := by
        rw [RelayRoute.bytes,put32_be32 _ (hfield 4 4 (by omega)),put32_be32 _ (hfield 8 4 (by omega)),
          put64_be64 _ (hfield 12 8 (by omega)),hzero,hend]
        simp only [List.append_assoc,List.append_nil]
    _=[msgRelayRoute]++buf.drop 1 := by
        rw [take_slice buf 12 8,take_slice buf 8 4,take_slice buf 4 4,take_slice buf 1 3]
    _=buf := hfront

/-- A registration is parsed exactly when its length, type, reserved bytes and expiry are right. -/
theorem parse_registration_iff (buf : Bytes) :
    (∃g,RelayRegistration.parse buf=.ok g) ↔
      buf.length=lenRelayRegistration ∧ buf.head?=some msgRelayRegistration ∧ reservedZero buf=true ∧
        (be64 (slice buf 36 8)).toNat ≤ maxExpiry := by
  constructor
  · intro h
    obtain ⟨g,hg⟩ := h
    rw [RelayRegistration.parse] at hg
    by_cases hlen : buf.length=lenRelayRegistration
    · by_cases hhead : buf.head?=some msgRelayRegistration
      · by_cases hreserved : reservedZero buf=true
        · refine ⟨hlen,hhead,hreserved,?_⟩
          by_contra hover
          simp [hlen,hhead,hreserved,Nat.lt_of_not_le hover] at hg
        · simp [hlen,hhead,hreserved] at hg
      · simp [hlen,hhead] at hg
    · simp [hlen] at hg
  · intro h
    obtain ⟨hlen,hhead,hreserved,hexpiry⟩ := h
    rw [RelayRegistration.parse,if_neg (not_not.mpr hlen),if_neg (not_not.mpr hhead),
      if_neg (by rw [hreserved]; decide)]
    simp only [if_neg (Nat.not_lt.mpr hexpiry)]
    exact ⟨_,rfl⟩

theorem encode_eq_some {r : RelayRoute} {out buf : Bytes} (hlen : out.length=lenRelayRoute) :
    r.encode out=some buf ↔ r.bytes=buf := by
  have hdrop : out.drop lenRelayRoute=[] := by rw [List.drop_eq_nil_iff,hlen]
  rw [RelayRoute.encode,if_neg (by rw [hlen]; exact Nat.lt_irrefl _),hdrop,List.append_nil,Option.some.injEq]

/-- A buffer that is a route or a registration by the types of one side. -/
def OneSided (buf : Bytes) : Prop :=
  reservedZero buf=true ∧
    ((buf.length=lenRelayRoute ∧ (buf.head?=some msgRelayRoute ∨ buf.head?=some RelayServe.msgRelayRoute)) ∨
      (buf.length=lenRelayRegistration ∧
        (buf.head?=some RelayServe.msgRelayRegistration ∨
          (buf.head?=some msgRelayRegistration ∧ (be64 (slice buf 36 8)).toNat ≤ maxExpiry))))

/-- The two sides agree on exactly the buffers that are a route or a registration to neither. -/
theorem agrees_iff (buf : Bytes) : Agrees buf ↔ ¬OneSided buf := by
  obtain ⟨hforwarded,hregistered⟩ := classify_iff buf
  constructor
  · intro h hone
    obtain ⟨hreserved,⟨hlen,hhead⟩|⟨hlen,hhead⟩⟩ := hone
    · cases hhead with
      | inl hroute =>
        obtain ⟨r,hr⟩ := written_of_fields hlen hroute hreserved
        have hf := hforwarded.mp (h.route r buf hlen ((encode_eq_some hlen).mpr hr)).2
        rw [hroute] at hf
        exact absurd hf (by decide)
      | inr hroute =>
        have hf := h.forwarded (hforwarded.mpr hroute) hlen hreserved
        rw [hroute] at hf
        exact absurd hf (by decide)
    · cases hhead with
      | inl hreg =>
        have hf := h.registered (hregistered.mpr hreg) hlen hreserved
        rw [hreg] at hf
        exact absurd hf (by decide)
      | inr hreg =>
        obtain ⟨g,hg⟩ := (parse_registration_iff buf).mpr ⟨hlen,hreg.1,hreserved,hreg.2⟩
        have hf := hregistered.mp (h.registration g hg)
        rw [hreg.1] at hf
        exact absurd hf (by decide)
  · intro h
    constructor
    · intro r out hout hr
      rw [encode_eq_some hout] at hr
      have hone : OneSided buf := by
        rw [← hr]
        exact ⟨rfl,Or.inl ⟨bytes_length r,Or.inl rfl⟩⟩
      exact absurd hone h
    · intro g hg
      obtain ⟨hlen,hhead,hreserved,hexpiry⟩ := (parse_registration_iff buf).mp ⟨g,hg⟩
      exact absurd ⟨hreserved,Or.inr ⟨hlen,Or.inr ⟨hhead,hexpiry⟩⟩⟩ h
    · intro hf hlen hreserved
      exact absurd ⟨hreserved,Or.inl ⟨hlen,Or.inr (hforwarded.mp hf)⟩⟩ h
    · intro hf hlen hreserved
      exact absurd ⟨hreserved,Or.inr ⟨hlen,Or.inl (hregistered.mp hf)⟩⟩ h

/-- The all-zero route is written, reads back and is dropped. -/
theorem route_disagrees :
    (RelayRoute.encode ⟨0,0,0⟩ (List.replicate 20 0)).map RelayRoute.parse=some (.ok ⟨0,0,0⟩) ∧
      (RelayRoute.encode ⟨0,0,0⟩ (List.replicate 20 0)).map classifyDatagram=some .Dropped ∧
      ¬Agrees ([5]++List.replicate 19 0) := by
  refine ⟨by decide,by decide,?_⟩
  intro h
  have hwritten : RelayRoute.encode ⟨0,0,0⟩ (List.replicate 20 0)=some ([5]++List.replicate 19 0) := by decide
  have hf := (h.route ⟨0,0,0⟩ (List.replicate 20 0) rfl hwritten).2
  exact absurd hf (by decide)

end Relay

end Bolina
