import Bolina.Transport.GrantVerdict
import Bolina.Transport.SignedInput

namespace Bolina.Transport

open Codec BigEndian

def servedLen : Nat := 32+8+64

/-- The fields of a served certificate, and the bytes an anchor has signed. -/
def servedKey (certBytes : Bytes) : FixedBytes 32 := fixed 32 (certBytes.take 32)

def servedExpiry (certBytes : Bytes) : UInt64 := be64 ((certBytes.drop 32).take 8)

def servedSig (certBytes : Bytes) : Bytes := (certBytes.drop 40).take 64

/-- Some trusted anchor's signature covers the first forty bytes. -/
def AnchorSigned (K : Crypto) (certBytes : Bytes) (ctx : MeshContext) : Prop :=
  ∃anchor∈ctx.trustedAnchors,verifySigned K domainCert (certBytes.take 40) (servedSig certBytes) anchor.toList=true

/-- A certificate that may be served at this time: its own bytes and no others, not expired,
anchored and not revoked. -/
structure ServedValid (K : Crypto) (certBytes : Bytes) (ctx : MeshContext) : Prop where
  whole : certBytes.length=servedLen
  inTime : ctx.nowMs < servedExpiry certBytes
  anchored : AnchorSigned K certBytes ctx
  unrevoked : ctx.isRevoked (servedKey certBytes)=false

/-- What the code lets through: a certificate up to its expiry, with any bytes behind it. -/
structure ServedAdmits (K : Crypto) (certBytes : Bytes) (ctx : MeshContext) : Prop where
  long : servedLen ≤ certBytes.length
  inTime : ctx.nowMs ≤ servedExpiry certBytes
  anchored : AnchorSigned K certBytes ctx
  unrevoked : ctx.isRevoked (servedKey certBytes)=false

/-- The call with a callback that works on a state and notes the keys it is run on. -/
def servedRecording {ρ σ : Type} (K : Crypto) (certBytes : Bytes) (ctx : MeshContext)
    (proceed : FixedBytes 32 → σ → ρ × σ) (s : σ) (keys : List (FixedBytes 32)) :
    Except MeshError ρ × (σ × List (FixedBytes 32)) :=
  match verifyServedCertThen K certBytes ctx (fun key => ((proceed key s).1,((proceed key s).2,keys++[key]))) with
  | .ok (r,after) => (.ok r,after)
  | .error e => (.error e,(s,keys))

/-- The callback runs exactly once, on the served key, if the certificate is valid; if not, it
does not run and the call returns an error. -/
def ServedExactly (K : Crypto) (certBytes : Bytes) (ctx : MeshContext) : Prop :=
  ∀(ρ σ : Type) (proceed : FixedBytes 32 → σ → ρ × σ) (s : σ),
    (ServedValid K certBytes ctx → servedRecording K certBytes ctx proceed s []=
      (.ok (proceed (servedKey certBytes) s).1,((proceed (servedKey certBytes) s).2,[servedKey certBytes]))) ∧
    (¬ServedValid K certBytes ctx → ∃e,servedRecording K certBytes ctx proceed s []=(.error e,(s,[])))

section Served

variable (K : Crypto) (certBytes : Bytes) (ctx : MeshContext)

theorem servedTbs_eq (h : servedLen ≤ certBytes.length) :
    servedTbs (servedKey certBytes) (servedExpiry certBytes)=certBytes.take 40 := by
  have hlen : 104 ≤ certBytes.length := h
  have hkey : (servedKey certBytes).toList=certBytes.take 32 := by
    apply toList_fixed
    rw [List.length_take]
    omega
  have hexpiry : put64 (servedExpiry certBytes)=(certBytes.drop 32).take 8 := by
    apply put64_be64
    rw [List.length_take,List.length_drop]
    omega
  rw [servedTbs,hkey,hexpiry]
  exact (List.take_add (l := certBytes) (i := 32) (j := 8)).symm

def anchorLoop : Bool :=
  ctx.trustedAnchors.any (fun anchor => verifySigned K domainCert
    (servedTbs (servedKey certBytes) (servedExpiry certBytes)) (servedSig certBytes) anchor.toList)

/-- The anchor loop looks for one signature over the first forty bytes. -/
theorem anchorLoop_iff (h : servedLen ≤ certBytes.length) :
    anchorLoop K certBytes ctx=true ↔ AnchorSigned K certBytes ctx := by
  rw [anchorLoop,servedTbs_eq certBytes h,List.any_eq_true]
  rfl

theorem verifyServedCertThen_steps {R : Type} (proceed : FixedBytes 32 → R) :
    verifyServedCertThen K certBytes ctx proceed=
      if certBytes.length < servedLen then .error .MalformedCert
      else if servedExpiry certBytes < ctx.nowMs then .error .Expired
      else if anchorLoop K certBytes ctx=false then .error .Untrusted
      else if ctx.isRevoked (servedKey certBytes) then .error .Untrusted
      else .ok (proceed (servedKey certBytes)) := rfl

theorem served_of_admits {R : Type} (proceed : FixedBytes 32 → R) (h : ServedAdmits K certBytes ctx) :
    verifyServedCertThen K certBytes ctx proceed=.ok (proceed (servedKey certBytes)) := by
  have hlen : ¬certBytes.length < servedLen := Nat.not_lt.mpr h.long
  have htime : ¬servedExpiry certBytes < ctx.nowMs := UInt64.not_lt.mpr h.inTime
  have hany := (anchorLoop_iff K certBytes ctx h.long).mpr h.anchored
  rw [verifyServedCertThen_steps,if_neg hlen,if_neg htime]
  simp [hany,h.unrevoked]

theorem served_of_not_admits (h : ¬ServedAdmits K certBytes ctx) :
    ∃e,∀(R : Type) (proceed : FixedBytes 32 → R),verifyServedCertThen K certBytes ctx proceed=.error e := by
  simp only [verifyServedCertThen_steps]
  by_cases hlen : certBytes.length < servedLen
  · exact ⟨.MalformedCert,by simp [hlen]⟩
  · by_cases htime : servedExpiry certBytes < ctx.nowMs
    · exact ⟨.Expired,by simp [hlen,htime]⟩
    · cases hany : anchorLoop K certBytes ctx with
      | false => exact ⟨.Untrusted,by simp [hlen,htime]⟩
      | true =>
        cases hrev : ctx.isRevoked (servedKey certBytes) with
        | true => exact ⟨.Untrusted,by simp [hlen,htime]⟩
        | false =>
          have hlong : servedLen ≤ certBytes.length := Nat.not_lt.mp hlen
          exact absurd ⟨hlong,UInt64.not_lt.mp htime,(anchorLoop_iff K certBytes ctx hlong).mp hany,hrev⟩ h

theorem admits_of_valid (h : ServedValid K certBytes ctx) : ServedAdmits K certBytes ctx :=
  ⟨h.whole.ge,UInt64.le_of_lt h.inTime,h.anchored,h.unrevoked⟩

/-- The callback runs as it should exactly if an admitted certificate is neither at its expiry nor
longer than its own bytes. -/
theorem servedExactly_iff : ServedExactly K certBytes ctx ↔
    (ServedAdmits K certBytes ctx → certBytes.length=servedLen ∧ servedExpiry certBytes≠ctx.nowMs) := by
  constructor
  · intro h ha
    by_contra hn
    have hnot : ¬ServedValid K certBytes ctx := by
      intro hv
      have hne : servedExpiry certBytes≠ctx.nowMs := fun he => UInt64.lt_irrefl ctx.nowMs (he ▸ hv.inTime)
      exact hn ⟨hv.whole,hne⟩
    obtain ⟨e,he⟩ := (h Unit Unit (fun _ _ => ((),())) ()).2 hnot
    rw [servedRecording,served_of_admits K certBytes ctx _ ha] at he
    cases he
  · intro h ρ σ proceed s
    constructor
    · intro hv
      rw [servedRecording,served_of_admits K certBytes ctx _ (admits_of_valid K certBytes ctx hv)]
      rfl
    · intro hn
      have hnot : ¬ServedAdmits K certBytes ctx := by
        intro ha
        obtain ⟨hlen,hne⟩ := h ha
        have hlt : ctx.nowMs < servedExpiry certBytes := UInt64.lt_of_le_of_ne ha.inTime hne.symm
        exact hn ⟨hlen,hlt,ha.anchored,ha.unrevoked⟩
      obtain ⟨e,he⟩ := served_of_not_admits K certBytes ctx hnot
      exact ⟨e,by rw [servedRecording,he]⟩

end Served

section Others

/-- What check 10 lets pass has not expired. -/
theorem checkExpiry_inTime (notAfter nowMs firstReceiptMs tMaxS tRecvS : UInt64)
    (h : checkExpiry notAfter nowMs firstReceiptMs tMaxS tRecvS=.ok ()) : nowMs < notAfter := by
  rw [checkExpiry_steps] at h
  split_ifs at h with _ _ hpast
  exact UInt64.lt_iff_toNat_lt.mpr (Nat.not_le.mp hpast)

theorem grantChecks_inTime (K : Crypto) (env : Envelope) (grant : Grant) (ctx : GrantContext)
    (h : grantChecks K env grant ctx=.ok ()) : ctx.nowMs < grant.notAfter := by
  rw [grantChecks_eq] at h
  cases hc : firstFailing (codeChecks K env grant ctx) with
  | some e =>
    rw [hc] at h
    cases h
  | none =>
    rw [hc] at h
    cases he : checkExpiry grant.notAfter ctx.nowMs ctx.firstReceiptMs ctx.tMaxS ctx.tRecvS with
    | error a =>
      rw [he] at h
      cases h
    | ok _ => exact checkExpiry_inTime _ _ _ _ _ he

theorem verifyGrantThen_inTime {σ : Type} (K : Crypto) (env : Envelope) (grant : Grant) (ctx : GrantContext)
    (execute : Grant → σ → EffectOutcome × σ) (s : σ) (outcome : EffectOutcome)
    (h : (verifyGrantThen K env grant ctx execute s).1=.ok outcome) : ctx.nowMs < grant.notAfter := by
  rw [verifyGrantThen] at h
  cases hc : grantChecks K env grant ctx with
  | error a =>
    rw [hc] at h
    cases h
  | ok _ => exact grantChecks_inTime K env grant ctx hc

end Others

/-- Nothing is accepted at or after its expiry, exactly if a served certificate that would be let
through is neither at its expiry nor longer than its own bytes. -/
theorem nothing_accepted_late_iff (K : Crypto) (env : Envelope) (grant : Grant) (gctx : GrantContext)
    (cert : CertView) (trusted : List Bytes) (nowMs : UInt64) (certBytes : Bytes) (ctx : MeshContext) :
    ((∀(σ : Type) (execute : Grant → σ → EffectOutcome × σ) (s : σ) (outcome : EffectOutcome),
        (verifyGrantThen K env grant gctx execute s).1=.ok outcome → gctx.nowMs < grant.notAfter) ∧
      (validateCert K cert trusted nowMs=.ok () → nowMs < cert.notAfter) ∧
      ServedExactly K certBytes ctx) ↔
    (ServedAdmits K certBytes ctx → certBytes.length=servedLen ∧ servedExpiry certBytes≠ctx.nowMs) := by
  rw [← servedExactly_iff]
  constructor
  · intro h
    exact h.2.2
  · intro h
    refine ⟨?_,?_,h⟩
    · intro σ execute s outcome hok
      exact verifyGrantThen_inTime K env grant gctx execute s outcome hok
    · intro hok
      exact ((validateCert_iff K cert trusted nowMs).mp hok).2.2

def servedCrypto : Crypto where
  blake2s _ := fixed 32 []
  ed25519 key msg sig := decide (key=peerKey ∧ msg=domainCert::(nodeKey++put64 1000000) ∧
    sig=beBytes 32 0xd48ccf6c3615b862df5086971cab7bacd113bd5a4c359cfc427979a22ff9c646++
      beBytes 32 0xf53aa467899cf68daffc43796ad24e55a2587365a50765ab45a24bb02be16106)

/-- A certificate that the peer has signed for the node's key, up to one instant. -/
def servedCert : Bytes :=
  nodeKey++put64 1000000++beBytes 32 0xd48ccf6c3615b862df5086971cab7bacd113bd5a4c359cfc427979a22ff9c646++
    beBytes 32 0xf53aa467899cf68daffc43796ad24e55a2587365a50765ab45a24bb02be16106

def servedContext (nowMs : UInt64) : MeshContext where
  trustedAnchors := [fixed 32 peerKey]
  nowMs
  isRevoked _ := false

/-- The served certificate is accepted at the instant of its expiry, and before it with a byte
behind it that nobody has signed. -/
theorem served_at_expiry :
    (verifyServedCertThen servedCrypto servedCert (servedContext 1000000) (fun key => key)=.ok (fixed 32 nodeKey) ∧
      servedExpiry servedCert=1000000 ∧ ¬ServedExactly servedCrypto servedCert (servedContext 1000000)) ∧
    (verifyServedCertThen servedCrypto (servedCert++[0]) (servedContext 999999) (fun key => key)=.ok (fixed 32 nodeKey) ∧
      (servedCert++[0]).length=servedLen+1 ∧
      ¬ServedExactly servedCrypto (servedCert++[0]) (servedContext 999999)) := by
  have hat : ServedAdmits servedCrypto servedCert (servedContext 1000000) :=
    ⟨by decide,by decide,⟨fixed 32 peerKey,List.mem_singleton.mpr rfl,by decide⟩,rfl⟩
  have htail : ServedAdmits servedCrypto (servedCert++[0]) (servedContext 999999) :=
    ⟨by decide,by decide,⟨fixed 32 peerKey,List.mem_singleton.mpr rfl,by decide⟩,rfl⟩
  refine ⟨⟨?_,by decide,?_⟩,⟨?_,by decide,?_⟩⟩
  · rw [served_of_admits _ _ _ _ hat]
    exact congrArg Except.ok (by decide)
  · rw [servedExactly_iff]
    intro h
    exact absurd (h hat).2 (by decide)
  · rw [served_of_admits _ _ _ _ htail]
    exact congrArg Except.ok (by decide)
  · rw [servedExactly_iff]
    intro h
    exact absurd (h htail).1 (by decide)

end Bolina.Transport
