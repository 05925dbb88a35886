import Bolina.Codec.Codec

namespace Bolina.Transport

open Codec

def domainCert : UInt8 := 0x01
def domainBinding : UInt8 := 0x05
def roleExecutor : UInt8 := (1 : UInt8)<<<2
def maxPrivilegedLifetimeMs : Nat := 2592000000
def approverQuorum : Nat := 2
def lenCaSig : Nat := 64

inductive BindingError where
  | MalformedKey
  | BadCaSignature
  | UntrustedCa
  | CertExpired
  | CertTooLongLived
  | RoleAgentApprover
  | RoleAgentExecutor
  | RoleApproverExecutor
  | ApproverNoQuorum
  | BadBindingSig
  | KexPubkeyMismatch
  deriving DecidableEq,Repr

/-- The errors of the checks that read no clock. -/
inductive CertChainError where
  | MalformedKey
  | BadCaSignature
  | UntrustedCa
  | CertTooLongLived
  | RoleAgentApprover
  | RoleAgentExecutor
  | RoleApproverExecutor
  | ApproverNoQuorum
  deriving DecidableEq,Repr

def CertChainError.toBinding : CertChainError → BindingError
  | .MalformedKey => .MalformedKey
  | .BadCaSignature => .BadCaSignature
  | .UntrustedCa => .UntrustedCa
  | .CertTooLongLived => .CertTooLongLived
  | .RoleAgentApprover => .RoleAgentApprover
  | .RoleAgentExecutor => .RoleAgentExecutor
  | .RoleApproverExecutor => .RoleApproverExecutor
  | .ApproverNoQuorum => .ApproverNoQuorum

/-- What the validation reads of a certificate. -/
structure CertView where
  sigPubkey : Bytes
  kexPubkey : Bytes
  roleBits : UInt8
  notBefore : UInt64
  notAfter : UInt64
  tbs : Bytes
  caSigs : Bytes
  caSigCount : Nat
  deriving DecidableEq

/-- The view of a parsed certificate. -/
def certView (c : Cert) : CertView :=
  ⟨c.sigPubkey,c.kexPubkey,c.roleBits,c.notBefore,c.notAfter,c.tbs,c.caSigs,c.caSigCount.toNat⟩

def checkRoleConstraints (roleBits : UInt8) : Except CertChainError Unit :=
  let agent := roleBits&&&roleAgent≠0
  let approver := roleBits&&&roleApprover≠0
  let executor := roleBits&&&roleExecutor≠0
  if agent ∧ approver then .error .RoleAgentApprover
  else if agent ∧ executor then .error .RoleAgentExecutor
  else if approver ∧ executor then .error .RoleApproverExecutor
  else .ok ()

def inTrustSet (caKey : Bytes) (trusted : List Bytes) : Bool := trusted.any (fun k => k==caKey)

def pairLen : Nat := lenCaKey+lenCaSig

/-- The loop over the packed pairs of a key and its signature. -/
def caSigLoop (K : Crypto) (cert : CertView) (trusted : List Bytes) : List Nat → Except CertChainError Unit
  | [] => .ok ()
  | i::rest =>
    let off := i*pairLen
    if cert.caSigs.length < off+pairLen then .error .BadCaSignature
    else
      let caKey := (cert.caSigs.drop off).take lenCaKey
      let caSig := (cert.caSigs.drop (off+lenCaKey)).take lenCaSig
      if verifySigned K domainCert cert.tbs caSig caKey=false then .error .BadCaSignature
      else if inTrustSet caKey trusted=false then .error .UntrustedCa
      else caSigLoop K cert trusted rest

def validateCertChain (K : Crypto) (cert : CertView) (trusted : List Bytes) : Except CertChainError Unit :=
  match checkRoleConstraints cert.roleBits with
  | .error e => .error e
  | .ok _ =>
    if cert.roleBits&&&roleApprover≠0 ∧ cert.caSigCount < approverQuorum then .error .ApproverNoQuorum
    else if cert.roleBits&&&(roleApprover|||roleExecutor)≠0 ∧
        maxPrivilegedLifetimeMs < cert.notAfter.toNat-cert.notBefore.toNat then .error .CertTooLongLived
    else caSigLoop K cert trusted (List.range cert.caSigCount)

def validateCert (K : Crypto) (cert : CertView) (trusted : List Bytes) (nowMs : UInt64) :
    Except BindingError Unit :=
  match validateCertChain K cert trusted with
  | .error e => .error e.toBinding
  | .ok _ => if nowMs < cert.notBefore ∨ cert.notAfter ≤ nowMs then .error .CertExpired else .ok ()

/-- The binding signature is over the hash of the handshake. -/
def bindSession (K : Crypto) (cert : CertView) (bindingSig handshakeHash remoteKexPubkey : Bytes)
    (trusted : List Bytes) (nowMs : UInt64) : Except BindingError Unit :=
  match validateCert K cert trusted nowMs with
  | .error e => .error e
  | .ok _ =>
    if cert.kexPubkey≠remoteKexPubkey then .error .KexPubkeyMismatch
    else if verifySigned K domainBinding handshakeHash bindingSig cert.sigPubkey=false then
      .error .BadBindingSig
    else .ok ()

/-- The pair at one index: a signature over the certificate by a trusted key. -/
structure CaSigned (K : Crypto) (cert : CertView) (trusted : List Bytes) (i : Nat) : Prop where
  present : i*pairLen+pairLen ≤ cert.caSigs.length
  verifies : verifySigned K domainCert cert.tbs ((cert.caSigs.drop (i*pairLen+lenCaKey)).take lenCaSig)
    ((cert.caSigs.drop (i*pairLen)).take lenCaKey)=true
  anchored : inTrustSet ((cert.caSigs.drop (i*pairLen)).take lenCaKey) trusted=true

/-- No certificate carries two roles. -/
structure OneRole (roleBits : UInt8) : Prop where
  agentApprover : ¬(roleBits&&&roleAgent≠0 ∧ roleBits&&&roleApprover≠0)
  agentExecutor : ¬(roleBits&&&roleAgent≠0 ∧ roleBits&&&roleExecutor≠0)
  approverExecutor : ¬(roleBits&&&roleApprover≠0 ∧ roleBits&&&roleExecutor≠0)

/-- What the checks without a clock ask of a certificate. -/
structure Chained (K : Crypto) (cert : CertView) (trusted : List Bytes) : Prop where
  role : OneRole cert.roleBits
  quorum : cert.roleBits&&&roleApprover≠0 → approverQuorum ≤ cert.caSigCount
  lifetime : cert.roleBits&&&(roleApprover|||roleExecutor)≠0 →
    cert.notAfter.toNat-cert.notBefore.toNat ≤ maxPrivilegedLifetimeMs
  signed : ∀i < cert.caSigCount,CaSigned K cert trusted i

/-- The certificate is in force. -/
def InForce (cert : CertView) (nowMs : UInt64) : Prop := cert.notBefore ≤ nowMs ∧ nowMs < cert.notAfter

section Validate

variable (K : Crypto) (cert : CertView) (trusted : List Bytes)

theorem checkRoleConstraints_iff (roleBits : UInt8) : checkRoleConstraints roleBits=.ok () ↔ OneRole roleBits := by
  rw [checkRoleConstraints]
  constructor
  · intro h
    split_ifs at h with haa hae hpe
    exact ⟨haa,hae,hpe⟩
  · intro h
    exact (if_neg h.agentApprover).trans ((if_neg h.agentExecutor).trans (if_neg h.approverExecutor))

theorem caSigLoop_iff (is : List Nat) :
    caSigLoop K cert trusted is=.ok () ↔ ∀i∈is,CaSigned K cert trusted i := by
  induction is with
  | nil => simp [caSigLoop]
  | cons i is ih =>
    rw [caSigLoop]
    simp only
    constructor
    · intro h
      split_ifs at h with hlen hv ht
      intro j hj
      cases List.mem_cons.mp hj with
      | inl he =>
        rw [he]
        exact ⟨Nat.le_of_not_lt hlen,by simpa using hv,by simpa using ht⟩
      | inr hm => exact ih.mp h j hm
    · intro h
      have hi := h i List.mem_cons_self
      rw [if_neg (Nat.not_lt.mpr hi.present),hi.verifies,hi.anchored]
      exact ih.mpr (fun j hj => h j (List.mem_cons_of_mem _ hj))

theorem validateCertChain_iff : validateCertChain K cert trusted=.ok () ↔ Chained K cert trusted := by
  rw [validateCertChain]
  constructor
  · intro h
    cases hr : checkRoleConstraints cert.roleBits with
    | error e =>
      rw [hr] at h
      cases h
    | ok _ =>
      rw [hr] at h
      simp only at h
      split_ifs at h with hq hl
      refine ⟨(checkRoleConstraints_iff _).mp hr,?_,?_,?_⟩
      · intro ha
        by_contra hlt
        exact hq ⟨ha,Nat.lt_of_not_le hlt⟩
      · intro ha
        by_contra hlt
        exact hl ⟨ha,Nat.lt_of_not_le hlt⟩
      · intro i hi
        exact (caSigLoop_iff K cert trusted _).mp h i (List.mem_range.mpr hi)
  · intro h
    rw [(checkRoleConstraints_iff _).mpr h.role]
    have hq : ¬(cert.roleBits&&&roleApprover≠0 ∧ cert.caSigCount < approverQuorum) :=
      fun hq => absurd (h.quorum hq.1) (Nat.not_le.mpr hq.2)
    have hl : ¬(cert.roleBits&&&(roleApprover|||roleExecutor)≠0 ∧
        maxPrivilegedLifetimeMs < cert.notAfter.toNat-cert.notBefore.toNat) :=
      fun hl => absurd (h.lifetime hl.1) (Nat.not_le.mpr hl.2)
    simp only [if_neg hq,if_neg hl]
    exact (caSigLoop_iff K cert trusted _).mpr (fun i hi => h.signed i (List.mem_range.mp hi))

theorem validateCert_iff (nowMs : UInt64) :
    validateCert K cert trusted nowMs=.ok () ↔ Chained K cert trusted ∧ InForce cert nowMs := by
  rw [validateCert]
  constructor
  · intro h
    cases hc : validateCertChain K cert trusted with
    | error e =>
      rw [hc] at h
      cases h
    | ok _ =>
      rw [hc] at h
      simp only at h
      split_ifs at h with ht
      obtain ⟨hb,ha⟩ := not_or.mp ht
      exact ⟨(validateCertChain_iff K cert trusted).mp hc,UInt64.not_lt.mp hb,UInt64.not_le.mp ha⟩
  · intro h
    obtain ⟨hc,hb,ha⟩ := h
    rw [(validateCertChain_iff K cert trusted).mpr hc]
    have ht : ¬(nowMs < cert.notBefore ∨ cert.notAfter ≤ nowMs) :=
      not_or.mpr ⟨UInt64.not_lt.mpr hb,UInt64.not_le.mpr ha⟩
    simp only [if_neg ht]

/-- A bound session has a valid certificate. -/
theorem validateCert_of_bound (bindingSig handshakeHash remoteKexPubkey : Bytes) (nowMs : UInt64)
    (h : bindSession K cert bindingSig handshakeHash remoteKexPubkey trusted nowMs=.ok ()) :
    validateCert K cert trusted nowMs=.ok () := by
  rw [bindSession] at h
  cases hv : validateCert K cert trusted nowMs with
  | error e =>
    rw [hv] at h
    cases h
  | ok _ => rfl

end Validate

end Bolina.Transport
