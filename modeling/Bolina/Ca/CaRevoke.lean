import Bolina.Ca.CaIssue
import Bolina.Transport.Verify

namespace Bolina.Ca

open BigEndian Codec
open Transport (revokePruneExpiry)

section Revoke

variable (d : CaDir) (serial : Bytes) (readable : Bool) (subjectExpiryMs : Option UInt64)

/-- The body for a certificate tells its expiry and its key, and any other file has none. -/
def RevokesWell : Prop :=
  (∀file c,caShow d serial readable=.ok file → parseCert file=.ok c →
    ∃body,caRevoke d serial readable subjectExpiryMs=some (.ok body) ∧
      revokePruneExpiry body=subjectExpiryMs.getD (revokePruneExpiry []) ∧ slice body 2 32=c.sigPubkey) ∧
  ((∀file c,caShow d serial readable=.ok file → parseCert file≠.ok c) →
    caRevoke d serial readable subjectExpiryMs=some (.error .CertUnreadable))

variable {d serial readable}

theorem caRevoke_unreadable {e : CaError} (h : caShow d serial readable=.error e) :
    caRevoke d serial readable subjectExpiryMs=some (.error .CertUnreadable) := by
  have he : e=.CertUnreadable := by
    rw [caShow] at h
    cases hf : d.issued serial with
    | none =>
      rw [hf] at h
      cases h
      rfl
    | some file =>
      cases hr : readable with
      | false =>
        simp only [hf,hr,if_true] at h
        cases h
        rfl
      | true =>
        simp only [hf,hr,Bool.true_eq_false,if_false] at h
        cases h
  rw [caRevoke,h,he]

/-- A file that is there is cut whatever it holds: a short one panics. -/
theorem caRevoke_readable {file : Bytes} (h : caShow d serial readable=.ok file) :
    caRevoke d serial readable subjectExpiryMs≠some (.error .CertUnreadable) := by
  rw [caRevoke,h]
  by_cases hshort : file.length < 32
  · simp [hshort]
  · simp [hshort]

/-- What the consumer takes for the expiry is the header and the front of the file. -/
theorem revokePruneExpiry_body (file tail : Bytes) (h : 32 ≤ file.length) :
    revokePruneExpiry ([7,2]++file.take 32++tail)=be64 ([7,2]++file.take 6) := by
  have hlen : 8 ≤ ([7,2]++file.take 32++tail).length := by
    simp
    omega
  rw [revokePruneExpiry,if_pos hlen]
  congr 1
  simp [List.take_append,List.take_take]
  omega

/-- An expiry that starts with the type of the body is not the one that is never pruned. -/
theorem body_prunes (file : Bytes) (h : 32 ≤ file.length) :
    be64 ([7,2]++file.take 6)≠revokePruneExpiry [] := by
  have hlen : (2::file.take 6).length=7 := by
    simp
    omega
  have hrest := beNat_lt (2::file.take 6)
  rw [hlen] at hrest
  have hval : beNat ([7,2]++file.take 6)=7*256^7+beNat (2::file.take 6) := by
    change beNat (7::(2::file.take 6))=_
    rw [beNat,hlen]
    rfl
  have hmax : (revokePruneExpiry []).toNat=2^64-1 := by decide
  intro he
  have hn := congrArg UInt64.toNat he
  rw [hmax,be64,hval,UInt64.toNat_ofNat'] at hn
  omega

/-- The subject's slot of the body holds the front of the file. -/
theorem body_subject (file tail : Bytes) (h : 32 ≤ file.length) :
    slice ([7,2]++file.take 32++tail) 2 32=file.take 32 := by
  have hlen : (file.take 32).length=32 := by
    rw [List.length_take]
    omega
  have hm := slice_mid [7,2] (file.take 32) tail
  rw [hlen] at hm
  rw [List.append_assoc]
  exact hm

/-- A body is right by accident alone: the front of the file would have to be the key it
holds at offset 2, and to read as the expiry that was given. -/
theorem revokesWell_front {subjectExpiryMs : Option UInt64} {file : Bytes}
    (h : RevokesWell d serial readable subjectExpiryMs) (hfile : caShow d serial readable=.ok file) :
    ∃c,parseCert file=.ok c ∧ file.take 32=c.sigPubkey ∧ subjectExpiryMs=some (be64 ([7,2]++file.take 6)) := by
  cases hparse : parseCert file with
  | error e =>
    have hnone : ∀file' c,caShow d serial readable=.ok file' → parseCert file'≠.ok c := by
      intro file' c hfile' hok
      rw [hfile] at hfile'
      cases hfile'
      rw [hparse] at hok
      cases hok
    exact absurd (h.2 hnone) (caRevoke_readable subjectExpiryMs hfile)
  | ok c =>
    obtain ⟨body,hbody,hexpiry,hkey⟩ := h.1 file c hfile hparse
    rw [caRevoke,hfile] at hbody
    by_cases hshort : file.length < 32
    · simp [hshort] at hbody
    · have hlong : 32 ≤ file.length := Nat.le_of_not_lt hshort
      simp only [if_neg hshort,Option.some.injEq,Except.ok.injEq] at hbody
      subst hbody
      rw [revokePruneExpiry_body file _ hlong] at hexpiry
      rw [body_subject file _ hlong] at hkey
      refine ⟨c,rfl,hkey,?_⟩
      cases he : subjectExpiryMs with
      | none =>
        rw [he] at hexpiry
        exact absurd hexpiry (body_prunes file hlong)
      | some e =>
        rw [he,Option.getD_some] at hexpiry
        rw [hexpiry]

theorem parsed_subject_length {file : Bytes} {c : Cert} (h : parseCert file=.ok c) : c.sigPubkey.length=32 := by
  obtain ⟨_,_,hx⟩ := cert_exact
  exact ((hx.accepts file c).mp h).1.1.1

variable (d serial readable)

theorem revokesWell_iff :
    RevokesWell d serial readable subjectExpiryMs ↔
      ∀file,caShow d serial readable=.ok file → ∃c,parseCert file=.ok c ∧ file.take 32=c.sigPubkey ∧
        subjectExpiryMs=some (be64 ([7,2]++file.take 6)) := by
  constructor
  · intro h file hfile
    exact revokesWell_front h hfile
  · intro h
    constructor
    · intro file c hfile hparse
      obtain ⟨c',hparse',hkey,he⟩ := h file hfile
      rw [hparse,Except.ok.injEq] at hparse'
      subst hparse'
      have hlong : 32 ≤ file.length := by
        have hl := congrArg List.length hkey
        rw [parsed_subject_length hparse,List.length_take] at hl
        omega
      refine ⟨[7,2]++file.take 32++(subjectExpiryMs.map put64).getD [],?_,?_,?_⟩
      · rw [caRevoke,hfile]
        simp only [if_neg (Nat.not_lt.mpr hlong)]
      · rw [revokePruneExpiry_body file _ hlong,he]
        rfl
      · rw [body_subject file _ hlong]
        exact hkey
    · intro hnone
      cases hfile : caShow d serial readable with
      | error e => exact caRevoke_unreadable subjectExpiryMs hfile
      | ok file =>
        obtain ⟨c,hparse,_⟩ := h file hfile
        exact absurd hparse (hnone file c hfile)

end Revoke

/-- A certificate of a peer, and beside it a file cut short. -/
def revokeDir : CaDir where
  sig _ := none
  pub _ := none
  issued serial :=
    if serial=[0x61] then some (encodeCert Transport.agentCert) else if serial=[0x62] then some [] else none

/-- The certificate's body reads back as another expiry, with one or without; the file cut
short panics. -/
theorem revokesWell_fails :
    ¬RevokesWell revokeDir [0x61] true (some 1000) ∧ ¬RevokesWell revokeDir [0x61] true none ∧
      ¬RevokesWell revokeDir [0x62] true none ∧ caRevoke revokeDir [0x62] true none=none := by
  have hfile : caShow revokeDir [0x61] true=.ok (encodeCert Transport.agentCert) := rfl
  have hkey : (parseCert (encodeCert Transport.agentCert)).toOption.map (fun c => c.sigPubkey)≠
      some ((encodeCert Transport.agentCert).take 32) := by decide +kernel
  have hnot (e : Option UInt64) : ¬RevokesWell revokeDir [0x61] true e := by
    intro h
    obtain ⟨c,hparse,hfront,_⟩ := revokesWell_front h hfile
    rw [hparse,hfront] at hkey
    exact hkey rfl
  have hempty : caShow revokeDir [0x62] true=.ok [] := rfl
  refine ⟨hnot _,hnot _,?_,rfl⟩
  intro h
  obtain ⟨c,hparse,_⟩ := revokesWell_front h hempty
  cases hparse

end Bolina.Ca
