import Bolina.Ca.Ca
import Bolina.Framework.Ciphers
import Bolina.Transport.Separation

namespace Bolina.Ca

open BigEndian Codec
open Transport (validateCertChain certView roleExecutor)

/-- The role bit of the wire that a role's name stands for. -/
def roleBit (role : String) : Option UInt8 :=
  if role="agent" then some roleAgent
  else if role="executor" then some roleExecutor
  else if role="approver" then some roleApprover
  else none

/-- The certificate says what was asked for, and validates under the keys of its issuer. -/
structure Answers (K : Crypto) (c : Cert) (req : IssueReq) (nowMs : UInt64) (trusted : List Bytes) : Prop where
  version : c.version=3
  role : roleBit req.role=some c.roleBits
  name : c.name=req.subject
  scopeCount : c.scopeCount.toNat=req.scopes.length
  scopeIds : c.scopeIds=req.scopes.flatMap List.Vector.toList
  notBefore : c.notBefore=nowMs
  notAfter : c.notAfter.toNat=nowMs.toNat+req.ttlMs.toNat
  chain : validateCertChain K (certView c) trusted=.ok ()

/-- What the wire has room for. -/
def Representable (req : IssueReq) (nowMs : UInt64) : Prop :=
  req.scopes.length ≤ 8 ∧ req.subject.length ≤ 64 ∧ nowMs.toNat+req.ttlMs.toNat < 2^64

section Issue

variable (K : Crypto) (S : Signer) (d : CaDir) (req : IssueReq) (nowMs : UInt64) (io : IssueIo)

/-- What is accepted reads back as what was asked for, and what the wire has no room for is
refused with an error. -/
def IssueRoundTrip : Prop :=
  (∀serial d',caIssue K S d req nowMs io=some (.ok serial,d') →
    ∃file c keys,d'.issued serial.toList=some file ∧ parseCert file=.ok c ∧
      loadKeys d io.readable (List.range 8)=.ok keys ∧ Answers K c req nowMs (keys.map (fun k => k.2.toList))) ∧
  (¬Representable req nowMs → ∃e d',caIssue K S d req nowMs io=some (.error e,d'))

def privileged (role : String) : Bool := role="executor" || role="approver"

/-- The directory holds two pairs of keys that can be read. -/
def HasKeys : Prop := ∃keys,loadKeys d io.readable (List.range 8)=.ok keys ∧ 2 ≤ keys.length

/-- The checks of the request and the keys pass. -/
structure Passes : Prop where
  role : (roleByte req.role).isSome=true
  ttl : req.ttlMs≠0
  cap : privileged req.role=true → req.ttlMs.toNat ≤ maxPrivilegedLifetimeMs
  keys : HasKeys d io

/-- The directory of the issued certificates takes the file. -/
def Writable : Prop := io.createDir=true ∧ io.write.ok=true

end Issue

theorem roleByte_privileged (role : String) (b : UInt8) (h : roleByte role=some b) :
    (b=0x03 ∨ b=0x02) ↔ privileged role=true := by
  by_cases ha : role="agent"
  · subst ha
    cases h
    decide
  · by_cases he : role="executor"
    · subst he
      cases h
      decide
    · by_cases hp : role="approver"
      · subst hp
        cases h
        decide
      · rw [roleByte,if_neg ha,if_neg he,if_neg hp] at h
        cases h

/-- The bytes of a certificate up to its name have one length. -/
theorem cert_prefix (front front' rest rest' : Bytes) {name name' : Bytes} (hf : front.length=front'.length)
    (h : front++beBytes 2 name.length++name++rest=front'++beBytes 2 name'.length++name'++rest') :
    name.length%65536=name'.length%65536 := by
  simp only [List.append_assoc] at h
  obtain ⟨_,htail⟩ := List.append_inj h hf
  obtain ⟨hlen,_⟩ := List.append_inj htail (by simp)
  have hn := congrArg beNat hlen
  simpa [beNat_beBytes] using hn

/-- Nothing that is issued parses: the signatures stand where their count should, and the
lengths of the two layouts differ modulo 8. -/
theorem issued_unparsed (S : Signer) (role : UInt8) (req : IssueReq) (nowMs expiryMs : UInt64)
    (keys : List (FixedBytes 32×FixedBytes 32)) (c : Cert) :
    parseCert (issuedCert S (issuedTbs role req nowMs expiryMs) keys)≠.ok c := by
  intro h
  obtain ⟨_,_,hx⟩ := cert_exact
  obtain ⟨⟨⟨hsig,hkex,hname,-,hscopes⟩,-,-,hpairs,-⟩,-,hw⟩ := (hx.accepts _ c).mp h
  have henc : certWire.encode c=encodeCert c := rfl
  have hkey : lenPubkey=32 := rfl
  have hscope : lenScopeId=8 := rfl
  have hpair : lenCaKey+lenSig=96 := rfl
  have hmax : maxName=64 := rfl
  have hsigs : (keys.flatMap (fun k => (S.sign k.1 (domainCert::issuedTbs role req nowMs expiryMs)).toList)).length=
      keys.length*64 := by simp [List.length_flatMap]
  have hids : (req.scopes.flatMap List.Vector.toList).length=req.scopes.length*8 := by simp [List.length_flatMap]
  rw [henc,encodeCert_eq,tbsOfCert,pushField16,issuedCert] at hw
  generalize keys.flatMap (fun k => (S.sign k.1 (domainCert::issuedTbs role req nowMs expiryMs)).toList)=sigs at hw hsigs
  rw [issuedTbs] at hw
  have hlen := congrArg List.length hw
  have hmod : c.name.length%65536=req.subject.length%65536 := by
    apply cert_prefix ([c.version]++[c.roleBits]++c.sigPubkey++c.kexPubkey++put64 c.notBefore++put64 c.notAfter)
      ([3,role]++List.replicate 32 0++List.replicate 32 0++put64 nowMs++put64 expiryMs)
      ([c.scopeCount]++c.scopeIds++([c.caSigCount]++c.caSigs))
      ([UInt8.ofNat req.scopes.length]++(req.scopes.flatMap List.Vector.toList++sigs))
    · simp [hsig,hkex,hkey]
    · simpa only [List.append_assoc] using hw
  rw [hscope] at hscopes
  rw [hpair] at hpairs
  simp only [List.length_append,List.length_cons,List.length_nil,List.length_replicate,put64_length,
    beBytes_length,hids,hsigs,hsig,hkex,hkey,hscopes,hpairs] at hlen
  omega

section Outcomes

variable (K : Crypto) (S : Signer) (d : CaDir) (req : IssueReq) (nowMs : UInt64) (io : IssueIo)

theorem caIssue_refused (h : ¬Passes d req io) : ∃e,caIssue K S d req nowMs io=some (.error e,d) := by
  cases hrole : roleByte req.role with
  | none => exact ⟨.BadRole,by simp only [caIssue,hrole]⟩
  | some role =>
    by_cases httl : req.ttlMs=0
    · exact ⟨.BadTtl,by simp only [caIssue,hrole,if_pos httl]⟩
    · by_cases hcap : (role=0x03 ∨ role=0x02) ∧ maxPrivilegedLifetimeMs < req.ttlMs.toNat
      · exact ⟨.TtlOverCap,by simp only [caIssue,hrole,if_neg httl,if_pos hcap]⟩
      · cases hkeys : loadKeys d io.readable (List.range 8) with
        | error e => exact ⟨e,by simp only [caIssue,hrole,if_neg httl,if_neg hcap,hkeys]⟩
        | ok keys =>
          by_cases hfew : keys.length < 2
          · exact ⟨.NoCaKeys,by simp only [caIssue,hrole,if_neg httl,if_neg hcap,hkeys,if_pos hfew]⟩
          · have hpass : Passes d req io := by
              refine ⟨by rw [hrole]; rfl,httl,?_,keys,hkeys,Nat.le_of_not_lt hfew⟩
              intro hp
              by_contra hover
              exact hcap ⟨(roleByte_privileged req.role role hrole).mpr hp,Nat.lt_of_not_le hover⟩
            exact absurd hpass h

/-- A request that passes the checks comes to the sum that may overflow, then to the disk. -/
theorem caIssue_passed (h : Passes d req io) :
    ∃role keys,loadKeys d io.readable (List.range 8)=.ok keys ∧
      caIssue K S d req nowMs io=
        (let tbs := issuedTbs role req nowMs (nowMs+req.ttlMs)
         let d' := d.store (serialOf K tbs).toList (io.write.leaves (issuedCert S tbs keys))
         if 2^64 ≤ nowMs.toNat+req.ttlMs.toNat then none
         else if io.createDir=false then some (.error .DataDirUnwritable,d)
         else if io.write.ok=false then some (.error .DataDirUnwritable,d')
         else some (.ok (serialOf K tbs),d')) := by
  obtain ⟨role,hrole⟩ := Option.isSome_iff_exists.mp h.role
  obtain ⟨keys,hkeys,htwo⟩ := h.keys
  have hcap : ¬((role=0x03 ∨ role=0x02) ∧ maxPrivilegedLifetimeMs < req.ttlMs.toNat) := by
    intro hover
    have hp := (roleByte_privileged req.role role hrole).mp hover.1
    exact absurd hover.2 (Nat.not_lt.mpr (h.cap hp))
  refine ⟨role,keys,hkeys,?_⟩
  simp only [caIssue,hrole,if_neg h.ttl,if_neg hcap,hkeys,if_neg (Nat.not_lt.mpr htwo)]

theorem caIssue_overflows (h : Passes d req io) (hover : 2^64 ≤ nowMs.toNat+req.ttlMs.toNat) :
    caIssue K S d req nowMs io=none := by
  obtain ⟨role,keys,_,hissue⟩ := caIssue_passed K S d req nowMs io h
  rw [hissue]
  simp only [if_pos hover]

variable (hsum : nowMs.toNat+req.ttlMs.toNat < 2^64)

include hsum

theorem caIssue_unwritten (h : Passes d req io) (hw : ¬Writable io) :
    ∃d',caIssue K S d req nowMs io=some (.error .DataDirUnwritable,d') := by
  obtain ⟨role,keys,_,hissue⟩ := caIssue_passed K S d req nowMs io h
  rw [hissue]
  simp only [if_neg (Nat.not_le.mpr hsum)]
  by_cases hdir : io.createDir=false
  · exact ⟨d,by rw [if_pos hdir]⟩
  · have hwrite : io.write.ok=false := by
      rw [Bool.eq_false_iff]
      exact fun hok => hw ⟨by simpa using hdir,hok⟩
    exact ⟨_,by rw [if_neg hdir,if_pos hwrite]⟩

theorem caIssue_issued (h : Passes d req io) (hw : Writable io) :
    ∃role keys,let tbs := issuedTbs role req nowMs (nowMs+req.ttlMs)
      caIssue K S d req nowMs io=
        some (.ok (serialOf K tbs),d.store (serialOf K tbs).toList (some (issuedCert S tbs keys))) := by
  obtain ⟨role,keys,_,hissue⟩ := caIssue_passed K S d req nowMs io h
  obtain ⟨hdir,hok⟩ := hw
  have hwrite : io.write=.written := by
    cases hwrite : io.write with
    | written => rfl
    | failed left =>
      rw [hwrite] at hok
      cases hok
  refine ⟨role,keys,?_⟩
  rw [hissue]
  simp only [if_neg (Nat.not_le.mpr hsum),hdir,hwrite,WriteOutcome.ok,WriteOutcome.leaves,Bool.true_eq_false,if_false]

/-- What is written is not what was asked for. -/
theorem issued_not_roundTrip (h : Passes d req io) (hw : Writable io) : ¬IssueRoundTrip K S d req nowMs io := by
  intro hround
  obtain ⟨role,keys,hok⟩ := caIssue_issued K S d req nowMs io hsum h hw
  obtain ⟨file,c,_,hfile,hparse,_⟩ := hround.1 _ _ hok
  rw [CaDir.store_issued,Option.some.injEq] at hfile
  rw [← hfile] at hparse
  exact issued_unparsed S role req nowMs _ keys c hparse

end Outcomes

/-- A directory that was set up with two keys or more has them, where its files can be read. -/
theorem caInit_hasKeys (S : Signer) (seed : Nat → FixedBytes 32) (d : CaDir) (count : Nat) (initIo : InitIo)
    (io : IssueIo) (h : (caInit S d count seed initIo).1=.ok ()) (htwo : 2 ≤ count)
    (hr : ∀i,io.readable i=true) : HasKeys (caInit S d count seed initIo).2 io := by
  have hheld := caInit_holds S seed initIo d count h
  obtain ⟨keys,hk⟩ := loadKeys_readable (caInit S d count seed initIo).2 io.readable hr [2,3,4,5,6,7]
  have hone := loadKeys_holds S seed _ io.readable 1 _ keys (hr 1) (hheld 1 (by omega)) hk
  have hzero := loadKeys_holds S seed _ io.readable 0 _ _ (hr 0) (hheld 0 (by omega)) hone
  exact ⟨_,hzero,Nat.le_add_left 2 keys.length⟩

/-- The round trip is kept where nothing is issued and nothing overflows. -/
theorem issueRoundTrip_iff (K : Crypto) (S : Signer) (d : CaDir) (req : IssueReq) (nowMs : UInt64) (io : IssueIo) :
    IssueRoundTrip K S d req nowMs io ↔
      ¬Passes d req io ∨ (nowMs.toNat+req.ttlMs.toNat < 2^64 ∧ ¬Writable io) := by
  have hrefused (e : CaError) (d' : CaDir) (h : caIssue K S d req nowMs io=some (.error e,d')) :
      IssueRoundTrip K S d req nowMs io := by
    refine ⟨?_,fun _ => ⟨e,d',h⟩⟩
    intro serial d'' hok
    rw [h] at hok
    cases hok
  constructor
  · intro h
    by_cases hpass : Passes d req io
    · right
      by_cases hsum : nowMs.toNat+req.ttlMs.toNat < 2^64
      · refine ⟨hsum,?_⟩
        intro hw
        exact issued_not_roundTrip K S d req nowMs io hsum hpass hw h
      · have hnone := caIssue_overflows K S d req nowMs io hpass (Nat.le_of_not_lt hsum)
        obtain ⟨e,d',he⟩ := h.2 (fun hr => hsum hr.2.2)
        rw [hnone] at he
        cases he
    · exact Or.inl hpass
  · intro h
    cases h with
    | inl hpass =>
      obtain ⟨e,he⟩ := caIssue_refused K S d req nowMs io hpass
      exact hrefused e d he
    | inr hw =>
      by_cases hpass : Passes d req io
      · obtain ⟨d',he⟩ := caIssue_unwritten K S d req nowMs io hw.1 hpass hw.2
        exact hrefused _ d' he
      · obtain ⟨e,he⟩ := caIssue_refused K S d req nowMs io hpass
        exact hrefused e d he

def sampleCa : Crypto where
  blake2s msg := fixed 32 (Ciphers.blake2s 32 [] msg)
  ed25519 _ _ _ := false

def caSeed (i : Nat) : FixedBytes 32 := fixed 32 (List.replicate 32 (UInt8.ofNat (5-i)))

/-- The signatures of the two keys over the sample certificate. -/
def firstIssuedSig : Bytes := beBytes 64
  0xa81664bd8a02b85fa78a38071392417b4706d2d9623f294fd245b45de45a7f23bddf41dd5a2bb9626cf7088bd568df2f4ef024d4e081e7e318a142017e6f7300

def secondIssuedSig : Bytes := beBytes 64
  0xdd6fcf5e794b5b10e89243f8d6a0184d4161b579721310aaf57d42e1ee20f3a78c97a996dce528a4d0731324843bf0f3a506864611342a5de5d32bd46016b300

def sampleSigner : Signer where
  verifyingKey seed := fixed 32 (if seed=caSeed 0 then Transport.firstCa else Transport.secondCa)
  sign seed _ := fixed 64 (if seed=caSeed 0 then firstIssuedSig else secondIssuedSig)

/-- A new directory set up with two keys. -/
def sampleDir : CaDir :=
  (caInit sampleSigner ⟨fun _ => none,fun _ => none,fun _ => none⟩ 2 caSeed
    ⟨true,fun _ => .written,fun _ => .written⟩).2

def sampleReq : IssueReq := ⟨"agent",[0x6e,0x6f,0x64,0x65],[],3600000⟩

/-- An agent's certificate is issued and does not parse. -/
theorem issueRoundTrip_fails :
    ¬IssueRoundTrip sampleCa sampleSigner sampleDir sampleReq 1700000000000 ⟨fun _ => true,true,.written⟩ := by
  have hkeys : HasKeys sampleDir ⟨fun _ => true,true,.written⟩ :=
    caInit_hasKeys sampleSigner caSeed _ 2 ⟨true,fun _ => .written,fun _ => .written⟩ _ rfl (by decide) (fun _ => rfl)
  have hpass : Passes sampleDir sampleReq ⟨fun _ => true,true,.written⟩ :=
    ⟨by decide,by decide,fun h => absurd h (by decide),hkeys⟩
  have hsum : (1700000000000 : UInt64).toNat+sampleReq.ttlMs.toNat < 2^64 := by decide
  exact issued_not_roundTrip sampleCa sampleSigner sampleDir sampleReq _ _ hsum hpass ⟨rfl,rfl⟩

end Bolina.Ca
