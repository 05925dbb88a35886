import Bolina.Daemon.Establishment
import Bolina.Framework.SinceLog
import Bolina.Transport.Separation

namespace Bolina

open BigEndian Codec State Transport Noise SinceLog
open Handshake (Slot agreed NonzeroSecrets)

/-- The slot is committed. -/
def commits (i : Slot) (entry : UInt64 × Act) : Bool := entry.2==.committed i

/-- A call of `bind_session` that answered well, for a session that lives in the slot. -/
structure BindsSlot (S : Suite) (keys : Keys) (t : Tables) (i : Slot) (s : Transport.Session) (call : BindCall) :
    Prop where
  index : call.index=UInt32.ofNat i
  hash : call.handshakeHash=s.handshakeHash
  peer : t.peerStatic i=some call.peerStatic
  ok : bindSession S.toCrypto call.cert call.bindSig call.handshakeHash.toList call.peerStatic.toList keys.caPubs
    call.nowMs=.ok ()

/-- Every bound session of a slot was bound since the slot was last committed. -/
def BoundVerified (S : Suite) (keys : Keys) (t : Tables) (log : Log) : Prop :=
  ∀(i : Slot) s,t.sessions.lookup (UInt32.ofNat i)=some s → s.bound=true →
    ∃time call,(time,Act.bound call)∈since (commits i) log ∧ BindsSlot S keys t i s call

section Verified

variable {S : Suite} {A : Aead} {keys : Keys} {t t' : Tables} {x : Input} {log : Log}

/-- A slot that a step leaves as it was, and does not commit, stays verified. -/
theorem verified_kept {new : Log} {i : Slot} {s : Transport.Session} (hv : BoundVerified S keys t log)
    (hs : t.sessions.lookup (UInt32.ofNat i)=some s) (hb : s.bound=true) (hn : ∀a∈new,commits i a=false)
    {s' : Transport.Session} (hh : s'.handshakeHash=s.handshakeHash) (hp : t'.peerStatic i=t.peerStatic i) :
    ∃time call,(time,Act.bound call)∈since (commits i) (new++log) ∧ BindsSlot S keys t' i s' call := by
  obtain ⟨time,call,hmem,hc⟩ := hv i s hs hb
  refine ⟨time,call,?_,⟨hc.index,hc.hash.trans hh.symm,hp.trans hc.peer,hc.ok⟩⟩
  rw [since_quiet hn]
  exact List.mem_append_right new hmem

theorem quiet_of_not_mem {acts : List Act} {i : Slot} (now : UInt64) (h : Act.committed i∉acts) :
    ∀a∈(acts.map (fun a => (now,a))).reverse,commits i a=false := by
  intro ⟨time,a⟩ ha
  rw [commits,beq_eq_false_iff_ne]
  intro heq
  obtain rfl := heq
  exact h (mem_entries.mp ha).2

/-- The flag is only set by a call that was verified for the session in hand, and a
commit clears it. -/
theorem Effect.verified {acts : List Act} (hi : InStep t) (hv : BoundVerified S keys t log)
    (h : Effect S keys t x t' acts) :
    BoundVerified S keys t' ((acts.map (fun a => (x.now,a))).reverse++log) := by
  intro i r hr hb
  cases h with
  | idle sent =>
    exact verified_kept hv hr hb (quiet_of_not_mem x.now (by simp)) rfl rfl
  | opens idx s recv acts found key shown =>
    have hq : Act.committed i∉acts := by
      rcases shown with rfl | rfl
      · simp
      · simp
    by_cases hidx : UInt32.ofNat i=idx
    · rw [hidx,lookup_put_self _ _ _ (lookup_range _ _ _ found)] at hr
      rw [if_pos (lookup_inUse _ _ _ found)] at hr
      cases hr
      rw [← hidx] at found
      exact verified_kept hv found hb (quiet_of_not_mem x.now hq) rfl rfl
    · rw [lookup_put_of_ne _ _ _ _ hidx] at hr
      exact verified_kept hv hr hb (quiet_of_not_mem x.now hq) rfl rfl
  | binds s recv call found key verified =>
    have hq := @quiet_of_not_mem [.opened call.index,.bound call] i x.now (by simp)
    by_cases hidx : UInt32.ofNat i=call.index
    · rw [hidx,lookup_put_self _ _ _ (lookup_range _ _ _ found)] at hr
      rw [if_pos (lookup_inUse _ _ _ found)] at hr
      cases hr
      obtain ⟨hlocal,_⟩ := hi.within _ _ found
      obtain ⟨j,hj,hpeer⟩ := verified.peer
      have hij : j=i := by
        rw [Fin.ext_iff,hj,hlocal,← hidx,toNat_slot]
      rw [hij] at hpeer
      refine ⟨x.now,call,?_,⟨hidx.symm,verified.hash,hpeer,verified.ok⟩⟩
      rw [since_quiet hq]
      exact List.mem_append_left _ (by simp)
    · rw [lookup_put_of_ne _ _ _ _ hidx] at hr
      exact verified_kept hv hr hb hq rfl rfl
  | commits j s later out free created =>
    by_cases hij : i=j
    · rw [hij,lookup_put_self _ _ _ (slot_range j)] at hr
      cases hr
      cases hb
    · have hne : UInt32.ofNat i≠UInt32.ofNat j := fun he => hij (slot_inj he)
      rw [lookup_put_of_ne _ _ _ _ hne] at hr
      exact verified_kept hv hr hb (quiet_of_not_mem x.now (by simp [hij])) rfl (Function.update_of_ne hij _ _)
  | sweeps now _ freed swept stale frees =>
    by_cases him : i∈freed
    · rw [frees.gone i him] at hr
      cases hr
    · rw [frees.stays him] at hr
      refine verified_kept hv hr hb (quiet_of_not_mem x.now (by simp)) rfl ?_
      rw [frees.peer,if_neg him]

/-- A slot is unbound right after it is committed. -/
theorem Effect.unbound {acts : List Act} (h : Effect S keys t x t' acts) (i : Slot) (hc : Act.committed i∈acts) :
    ∃s,t'.sessions.lookup (UInt32.ofNat i)=some s ∧ s.bound=false := by
  cases h with
  | idle sent => simp at hc
  | opens idx s recv acts found key shown =>
    rcases shown with rfl | rfl
    · simp at hc
    · simp at hc
  | binds s recv call found key verified => simp at hc
  | commits j s later out free created =>
    have hj : i=j := by simpa using hc
    rw [hj]
    refine ⟨_,lookup_put_self _ _ _ (slot_range j),rfl⟩
  | sweeps now _ freed swept stale frees => simp at hc

variable {e : Endpoint} {resolver : Resolver} {ledger : Option GrantLedger} {disk : Disk}

theorem verified_run (xs : List Input)
    (h : runFrom S A keys (Endpoint.boot S keys resolver ledger disk) xs=some (e,log)) :
    BoundVerified S keys e.tables log := by
  have hinv := @runFrom_invariant S A keys (fun e log => InStep e.tables ∧ BoundVerified S keys e.tables log)
    (Endpoint.boot S keys resolver ledger disk) xs
  refine (hinv ⟨inStep_boot S keys resolver ledger disk,?_⟩ ?_ e log h).2
  · intro i s hs
    have hl : (Endpoint.boot S keys resolver ledger disk).tables.sessions.lookup (UInt32.ofNat i)=none := lookup_new _
    rw [hl] at hs
    cases hs
  · intro e log x e' acts hi hs
    have heff := step_effect hi.1 hs
    exact ⟨heff.inStep hi.1,heff.verified hi.1 hi.2⟩

end Verified

/-- In every state a run reaches, a session in use and bound is one of a slot, and since
that slot was last committed `bind_session` answered well for the session's own hash,
the slot's peer and the keys of the authorities. A commit leaves its slot unbound. -/
theorem bound_is_verified (S : Suite) (A : Aead) (keys : Keys) (resolver : Resolver) (ledger : Option GrantLedger)
    (disk : Disk) (xs : List Input) :
    ∀e log,runFrom S A keys (Endpoint.boot S keys resolver ledger disk) xs=some (e,log) →
      (∀idx s,e.sessions.lookup idx=some s → s.bound=true →
        ∃i : Slot,idx=UInt32.ofNat i ∧
          ∃time call,(time,Act.bound call)∈since (commits i) log ∧ BindsSlot S keys e.tables i s call) ∧
      ∀x e' acts,e.step S A keys x=some (e',acts) → ∀i,Act.committed i∈acts →
        ∃s,e'.sessions.lookup (UInt32.ofNat i)=some s ∧ s.bound=false := by
  intro e log h
  have hi := inStep_run xs h
  constructor
  · intro idx s hs hb
    obtain ⟨_,hlt⟩ := hi.within idx s hs
    have hidx : idx=UInt32.ofNat (⟨idx.toNat,hlt⟩ : Slot) := by
      apply UInt32.toNat_inj.mp
      rw [toNat_slot]
    refine ⟨⟨idx.toNat,hlt⟩,hidx,?_⟩
    rw [hidx] at hs
    exact verified_run xs h _ s hs hb
  · intro x e' acts hs i hc
    exact (step_effect hi hs).unbound i hc

section Binds

variable {S : Suite} {A : Aead} {keys : Keys} {e : Endpoint} {out : Outside} {wire sig : Bytes} {cert : Cert}

/-- A message that binds is taken in for the peer of the slot. -/
theorem handleBinding_bound {hash peer : Key} {now : UInt64} {idx : UInt32} (i : Slot) (hwire : wire.length < 65536)
    (hsig : sig.length=lenBindingSig) (hp : parseCert wire=.ok cert) (hpeer : e.peerStatic i=some peer)
    (hok : bindSession S.toCrypto (certView cert) sig hash.toList peer.toList keys.caPubs now=.ok ()) :
    e.handleBinding S keys now (beBytes 2 wire.length++wire++sig) hash (UInt32.ofNat i) idx=
      some ({ e.setBound idx with daemon := { (e.setBound idx).daemon with
          certs := (e.setBound idx).daemon.certs++[(cert.sigPubkey,wire)] } },
        [.bound ⟨idx,certView cert,sig,hash,peer,now⟩]) := by
  have hlen : (beBytes 2 wire.length++wire++sig).length=2+wire.length+lenBindingSig := by
    simp [hsig,Nat.add_assoc]
  have hnum : beNat ((beBytes 2 wire.length++wire++sig).take 2)=wire.length := by
    rw [List.append_assoc,List.take_left' (beBytes_length _ _)]
    exact (beNat_beBytes 2 _).trans (Nat.mod_eq_of_lt hwire)
  have hdrop : ((beBytes 2 wire.length++wire++sig).drop 2).take wire.length=wire := by
    rw [List.append_assoc,List.drop_left' (beBytes_length _ _),List.take_left]
  have hrest : ((beBytes 2 wire.length++wire++sig).drop (2+wire.length)).take lenBindingSig=sig := by
    rw [List.drop_left' (by simp),← hsig,List.take_length]
  have hi : (UInt32.ofNat i).toNat < Handshake.maxSessions := by
    rw [toNat_slot]
    exact i.isLt
  have hslot : e.peerStatic ⟨(UInt32.ofNat i).toNat,hi⟩=some peer := by
    rw [← hpeer]
    exact congrArg _ (Fin.ext (toNat_slot i))
  rw [Endpoint.handleBinding,if_neg (by omega)]
  simp only [hnum,hdrop,hrest,if_neg (Nat.not_lt.mpr (Nat.le_of_eq hlen.symm)),hp,dif_pos hi,hslot,hok]

theorem setBound_lookup (e : Endpoint) (idx : UInt32) (s : Transport.Session) (h : e.sessions.lookup idx=some s) :
    ∃s',(e.setBound idx).sessions.lookup idx=some s' ∧ s'.bound=true := by
  refine ⟨{ s with bound := true },?_,rfl⟩
  rw [Endpoint.setBound,h]
  exact (lookup_put_self _ _ _ (lookup_range _ _ _ h)).trans (if_pos (lookup_inUse _ _ _ h))

/-- The first packet of an initiator, when it is a message that binds. -/
theorem first_packet_bound (hS : S.Laws) (hA : A.Correct) {si ei er : Key}
    (hn : NonzeroSecrets S si keys.secretStatic ei er) (index : UInt32) (i : Slot) (ts now later : UInt64)
    (hsig : sig.length=lenBindingSig) (hp : parseCert wire=.ok cert) (hfit : 2+wire.length+lenBindingSig ≤ 4096)
    (hok : bindSession S.toCrypto (certView cert) sig (agreed S si keys.secretStatic ei er ts now).handshakeHash.toList
      (agreed S si keys.secretStatic ei er ts now).peerStatic.toList keys.caPubs out.now=.ok ()) :
    let s := agreed S si keys.secretStatic ei er ts now
    let rx := admittedSession (UInt32.ofNat i) 0 s.sendKey s.recvKey s.handshakeHash later
    ∃pkt window call,
      let heard := ((e.commit i s later).heard (UInt32.ofNat i) rx window).setBound (UInt32.ofNat i)
      (e.commit i s later).step S A keys (.datagram pkt out)=
        some ({ heard with daemon := { heard.daemon with certs := heard.daemon.certs++[(cert.sigPubkey,wire)] } },
          [.opened (UInt32.ofNat i),.bound call]) := by
  intro s rx
  have hlen : (beBytes 2 wire.length++wire++sig).length ≤ 4096 := by
    rw [List.length_append,List.length_append,beBytes_length,hsig]
    exact hfit
  have hwire : wire.length < 65536 := by omega
  obtain ⟨pkt,window,_,hstep⟩ := @first_packet S A keys e out _ hS hA si ei er hn index i ts now later hlen
  rw [@handleBinding_bound S keys _ wire sig cert _ _ out.now (UInt32.ofNat i) i hwire hsig hp
    (Function.update_self _ _ _) hok,Option.map_some] at hstep
  exact ⟨pkt,window,_,hstep⟩

/-- An initiator whose first packet is a message that binds has its session bound. -/
theorem first_packet_binds (hS : S.Laws) (hA : A.Correct) {si ei er : Key}
    (hn : NonzeroSecrets S si keys.secretStatic ei er) (index : UInt32) (i : Slot) (ts now later : UInt64)
    (hsig : sig.length=lenBindingSig) (hp : parseCert wire=.ok cert) (hfit : 2+wire.length+lenBindingSig ≤ 4096)
    (hok : bindSession S.toCrypto (certView cert) sig (agreed S si keys.secretStatic ei er ts now).handshakeHash.toList
      (agreed S si keys.secretStatic ei er ts now).peerStatic.toList keys.caPubs out.now=.ok ()) :
    ∃pkt e' call,(e.commit i (agreed S si keys.secretStatic ei er ts now) later).step S A keys (.datagram pkt out)=
        some (e',[.opened (UInt32.ofNat i),.bound call]) ∧
      ∃s,e'.sessions.lookup (UInt32.ofNat i)=some s ∧ s.bound=true := by
  obtain ⟨pkt,window,call,hstep⟩ := @first_packet_bound S A keys e out wire sig cert hS hA si ei er hn index i ts now
    later hsig hp hfit hok
  exact ⟨pkt,_,_,hstep,setBound_lookup _ _ _ (lookup_put_self _ _ _ (slot_range i))⟩

end Binds

section Sample

/-- The suite that verifies some signatures more. -/
def signingSuite (S : Suite) (sigs : List (Bytes × Bytes × Bytes)) : Suite := { S with toCrypto := signing S.toCrypto sigs }

theorem verifySigned_signing (K : Crypto) {sigs : List (Bytes × Bytes × Bytes)} {tag : UInt8} {tbs sig key : Bytes}
    (h : (key,tag::tbs,sig)∈sigs) (hkey : key.length=lenPubkey) (hsig : sig.length=lenSig) :
    verifySigned (signing K sigs) tag tbs sig key=true := by
  simp [verifySigned,signing,hkey,hsig,h]

/-- A certificate that is valid binds the session whose hash its holder has signed. -/
theorem bindSession_signing (K : Crypto) {sigs : List (Bytes × Bytes × Bytes)} {cert : Cert} {sig : Bytes}
    {hash peer : Key} {trusted : List Bytes} {now : UInt64}
    (hvalid : validateCert (signing K sigs) (certView cert) trusted now=.ok ()) (hkex : cert.kexPubkey=peer.toList)
    (hm : (cert.sigPubkey,domainBinding::hash.toList,sig)∈sigs) (hkey : cert.sigPubkey.length=lenPubkey)
    (hsig : sig.length=lenSig) :
    bindSession (signing K sigs) (certView cert) sig hash.toList peer.toList trusted now=.ok () := by
  have hpeer : ¬(certView cert).kexPubkey≠peer.toList := not_not.mpr hkex
  have hv : verifySigned (signing K sigs) domainBinding hash.toList sig (certView cert).sigPubkey=true :=
    verifySigned_signing K hm hkey hsig
  rw [bindSession,hvalid]
  simp only [if_neg hpeer,hv,Bool.true_eq_false,if_false]

section Signing

variable (S : Suite) (sigs : List (Bytes × Bytes × Bytes)) (si sr ei er : Key)

theorem signingSuite_laws (h : S.Laws) : (signingSuite S sigs).Laws := ⟨h.commutes,h.inPlace,h.decrypts⟩

theorem signingSuite_nonzero (h : NonzeroSecrets S si sr ei er) : NonzeroSecrets (signingSuite S sigs) si sr ei er :=
  ⟨h.es,h.ss,h.ee,h.se⟩

end Signing

def tiedCaSig : Bytes :=
  beBytes 32 0x2019ee39ee1d1c2e7eb7c8c705370fe63b9e0ab0e226c111d5ffecf80567744c++
    beBytes 32 0xaffe534c11c9d2b404730e3a84391b1c6124e79a1fa56dfc5f4ff687f529f50b

/-- The peer's signature over the hash of the sample exchange. -/
def tiedSig : Bytes :=
  beBytes 32 0x7bc3e6b62033b7d41c6a0eadb9cb18b73616849633bb7d543a7ee71d9c125d07++
    beBytes 32 0x8f909d9c839301fcc16a28a1a069462a5a81ead327f6d9c34d399a21d9032e07

/-- The peer's certificate for the static key of the sample initiator. -/
def tiedCert : Cert :=
  let c := { unsignedCert peerKey roleAgent 1 with
    kexPubkey := beBytes 32 0x7b4e909bbe7ffe44c465a220037d608ee35897d31ef972f07f74892cb0f73f13 }
  { c with
    tbs := certTbs c
    caSigs := firstCa++tiedCaSig }

def exchangeHash : Key :=
  (agreed sampleSuite initiatorSecret responderSecret initiatorEph responderEph 1700000000000 0).handshakeHash

def tiedSuite : Suite :=
  signingSuite sampleSuite
    [(firstCa,domainCert::tiedCert.tbs,tiedCaSig),(peerKey,domainBinding::exchangeHash.toList,tiedSig)]

def tiedKeys : Keys := ⟨responderSecret,responderSig,sampleCas⟩

theorem tiedCert_valid : validateCert tiedSuite.toCrypto (certView tiedCert) sampleCas 1000000=.ok () := by
  decide +kernel

theorem sample_binds (peer : Key) (hp : tiedCert.kexPubkey=peer.toList) :
    bindSession tiedSuite.toCrypto (certView tiedCert) tiedSig exchangeHash.toList peer.toList sampleCas 1000000=
      .ok () :=
  bindSession_signing sampleSuite.toCrypto tiedCert_valid hp (List.mem_cons_of_mem _ List.mem_cons_self)
    (beBytes_length _ _) (by decide +kernel)

def tiedBoot : Endpoint :=
  Endpoint.boot tiedSuite tiedKeys (Resolver.new tiedSuite.toCrypto responderSig.toList) none ⟨[],none,[]⟩

def tiedInitiation : Bytes :=
  sentMsg1 tiedSuite initiatorSecret responderSecret initiatorEph responderSig 7 1700000000000 (fixed 16 [])

/-- A session that was opened and bound, and the call that bound it. -/
theorem bound_is_verified_sample :
    ∃pkt e log s,runFrom tiedSuite chachaPoly tiedKeys tiedBoot
        [.datagram tiedInitiation (sampleOutside 0),.datagram pkt (sampleOutside 1000000)]=some (e,log) ∧
      e.sessions.lookup 0=some s ∧ s.bound=true ∧ ∃i : Slot,0=UInt32.ofNat i ∧
        ∃time call,(time,Act.bound call)∈since (commits i) log ∧
          BindsSlot tiedSuite tiedKeys e.tables i s call := by
  have hlaws : tiedSuite.Laws := signingSuite_laws sampleSuite _ sampleSuite_laws
  have hn : NonzeroSecrets tiedSuite initiatorSecret responderSecret initiatorEph responderEph :=
    signingSuite_nonzero sampleSuite _ _ _ _ _ sample_nonzero
  have hstart := @step_sent tiedSuite chachaPoly tiedKeys tiedBoot (sampleOutside 0)
    (inStep_boot tiedSuite tiedKeys _ none _) hlaws initiatorSecret initiatorEph 7 1700000000000
    (fixed 16 []) 0 hn (by decide +kernel) rfl
  have hfirst := @runFrom_snoc tiedSuite chachaPoly tiedKeys tiedBoot _ _ [] _ [] _ rfl hstart
  obtain ⟨pkt,e,call,hstep,s,hs,hb⟩ := @first_packet_binds tiedSuite chachaPoly tiedKeys tiedBoot
    (sampleOutside 1000000) (encodeCert tiedCert) tiedSig tiedCert hlaws chachaPoly_correct _ _ _ hn 7 0
    1700000000000 0 0 (by decide +kernel) (by decide +kernel) (by decide +kernel)
    (sample_binds _ (by decide +kernel))
  have hrun := runFrom_snoc hfirst hstep
  exact ⟨pkt,e,_,s,hrun,hs,hb,(bound_is_verified tiedSuite chachaPoly tiedKeys
    (Resolver.new tiedSuite.toCrypto responderSig.toList) none ⟨[],none,[]⟩ _ e _ hrun).1 0 s hs hb⟩

end Sample

end Bolina
