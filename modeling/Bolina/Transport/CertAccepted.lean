import Bolina.Codec.CertFormat
import Bolina.Transport.Separation

namespace Bolina.Transport

open Codec BigEndian

/-- The pairs of a certificate's CA keys and their signatures. -/
def certPairs (c : Cert) : List (Bytes×Bytes) := caPairs c.caSigCount.toNat c.caSigs

/-- What stands behind a session that was bound with the certificate `c`. -/
structure SoundlyBound (K : Crypto) (trusted : List Bytes) (c : Cert) (bindingSig h k : Bytes)
    (nowMs : UInt64) : Prop where
  role : OneRole c.roleBits
  listed : c.caSigs=(certPairs c).flatMap (fun p => p.1++p.2)
  someSigner : certPairs c≠[]
  signed : ∀p∈certPairs c,p.1∈trusted ∧ verifySigned K domainCert c.tbs p.2 p.1=true
  distinct : ((certPairs c).map Prod.fst).Nodup
  quorum : c.roleBits&&&roleApprover≠0 → 2 ≤ (certPairs c).length
  lifetime : c.roleBits&&&(roleApprover|||roleExecutor)≠0 →
    c.notAfter.toNat-c.notBefore.toNat ≤ 30*24*60*60*1000
  inForce : c.notBefore ≤ nowMs ∧ nowMs < c.notAfter
  kex : c.kexPubkey=k
  binding : verifySigned K domainBinding h bindingSig c.sigPubkey=true

section Pairs

theorem caPairs_range (n : Nat) (w : Bytes) : caPairs n w=(List.range n).map
    (fun i => ((w.drop (i*pairLen)).take lenCaKey,(w.drop (i*pairLen+lenCaKey)).take lenCaSig)) := by
  induction n generalizing w with
  | zero => rfl
  | succ n ih =>
    rw [caPairs,ih,List.range_succ_eq_map,List.map_cons,List.map_map]
    congr 1
    apply List.map_congr_left
    intro i _
    have hoff : lenCaKey+lenSig+i*pairLen=(i+1)*pairLen := by
      rw [Nat.add_mul,Nat.one_mul,Nat.add_comm]
      rfl
    simp only [Function.comp_apply,List.drop_drop,Nat.succ_eq_add_one,← Nat.add_assoc,hoff]

theorem caPairs_length (n : Nat) (w : Bytes) : (caPairs n w).length=n := by
  rw [caPairs_range,List.length_map,List.length_range]

/-- The pairs are all of the packed bytes. -/
theorem caPairs_flat (n : Nat) (w : Bytes) (h : w.length=n*pairLen) :
    (caPairs n w).flatMap (fun p => p.1++p.2)=w := by
  induction n generalizing w with
  | zero => exact (List.length_eq_zero_iff.mp (by rw [h,Nat.zero_mul])).symm
  | succ n ih =>
    have hrest : (w.drop (lenCaKey+lenSig)).length=n*pairLen := by
      rw [List.length_drop,h,Nat.add_mul,Nat.one_mul]
      exact Nat.add_sub_cancel _ _
    rw [caPairs,List.flatMap_cons,ih _ hrest,← List.drop_drop,List.append_assoc,
      List.take_append_drop,List.take_append_drop]

/-- Keys in strictly ascending order are pairwise distinct. -/
theorem nodup_of_ascending (keys : List Bytes) (h : keys.IsChain (· < ·)) : keys.Nodup := by
  have hne : ∀a b : Bytes,a < b → a≠b := by
    intro a _ hlt heq
    obtain rfl := heq
    exact List.lt_irrefl a hlt
  exact (List.isChain_iff_pairwise.mp h).imp (fun hlt => hne _ _ hlt)

end Pairs

/-- What an accepted binding has checked beside the certificate. -/
theorem bindSession_inv (K : Crypto) (cert : CertView) (trusted : List Bytes)
    (bindingSig handshakeHash remoteKexPubkey : Bytes) (nowMs : UInt64)
    (h : bindSession K cert bindingSig handshakeHash remoteKexPubkey trusted nowMs=.ok ()) :
    (Chained K cert trusted ∧ InForce cert nowMs) ∧ cert.kexPubkey=remoteKexPubkey ∧
    verifySigned K domainBinding handshakeHash bindingSig cert.sigPubkey=true := by
  have hv := validateCert_of_bound K cert trusted bindingSig handshakeHash remoteKexPubkey nowMs h
  rw [bindSession,hv] at h
  simp only at h
  split_ifs at h with hkex hsig
  exact ⟨(validateCert_iff K cert trusted nowMs).mp hv,not_not.mp hkex,by simpa using hsig⟩

/-- A certificate that parses and binds a session is signed by distinct trusted keys,
in force, and tied to the handshake it came over. -/
theorem certAccepted_sound (K : Crypto) (trusted : List Bytes) (w bindingSig h k : Bytes) (nowMs : UInt64)
    (c : Cert) (hparse : parseCert w=.ok c)
    (hbind : bindSession K (certView c) bindingSig h k trusted nowMs=.ok ()) :
    SoundlyBound K trusted c bindingSig h k nowMs := by
  obtain ⟨_,_,hx⟩ := cert_exact
  obtain ⟨⟨-,hzero,-,hlen,hchain⟩,-,-⟩ := (hx.accepts w c).mp hparse
  obtain ⟨⟨hchained,hforce⟩,hkex,hsig⟩ := bindSession_inv K _ trusted _ _ _ _ hbind
  have hcount : (certPairs c).length=c.caSigCount.toNat := caPairs_length _ _
  have hpos : 0 < c.caSigCount.toNat := by
    rw [Nat.pos_iff_ne_zero]
    exact fun he => hzero (UInt8.toNat.inj he)
  refine ⟨hchained.role,(caPairs_flat _ _ hlen).symm,?_,?_,nodup_of_ascending _ hchain,?_,hchained.lifetime,
    hforce,hkex,hsig⟩
  · exact List.ne_nil_of_length_pos (by rwa [hcount])
  · intro p hp
    rw [certPairs,caPairs_range,List.mem_map] at hp
    obtain ⟨i,hi,rfl⟩ := hp
    have hs := hchained.signed i (List.mem_range.mp hi)
    have ht := hs.anchored
    rw [inTrustSet,List.any_eq_true] at ht
    obtain ⟨key,hmem,hkey⟩ := ht
    exact ⟨eq_of_beq hkey ▸ hmem,hs.verifies⟩
  · intro ha
    rw [hcount]
    exact hchained.quorum ha

section Sample

def sampleHandshakeHash : Bytes := List.replicate 32 7

/-- The approver's signature over the hash. -/
def approverBindingSig : Bytes :=
  beBytes 32 0x376bbc998b765a7f6766b0793ed2aa77fadf3304d1db88555c5c94fc2c6cf7f2++
    beBytes 32 0xd33d76c7791d4748389f9e7f6e053f956ffe1eb4d06714fb1089283e7fb16905

def approverBinding : Crypto :=
  signing separateCrypto [(approverKey,domainBinding::sampleHandshakeHash,approverBindingSig)]

/-- An approver's certificate, under the quorum of two keys. -/
theorem certAccepted_sound_approver :
    SoundlyBound approverBinding sampleCas approverCert approverBindingSig sampleHandshakeHash
      (List.replicate 32 0) 1000000 :=
  certAccepted_sound approverBinding sampleCas (encodeCert approverCert) approverBindingSig sampleHandshakeHash
    (List.replicate 32 0) 1000000 approverCert (by decide +kernel) (by decide +kernel)

end Sample

end Bolina.Transport
