import Bolina.Client.Messages
import Bolina.Daemon.RunLoop

namespace Bolina.Client

open Codec Intent State Transport Noise BigEndian PartialRun
open Ca (Signer)
open Handshake (Slot NonzeroSecrets)

/-- The session is joined with a certificate for the hour to come. -/
def certFor (D : Signer) (ck : ClientKeys) (t : UInt64) : Bytes :=
  buildCert D ck (UInt64.ofNat (t.toNat-1000)) (t+3600000)

section Campaign

variable {S : Suite} {A : Aead} {keys : Keys}

/-- The clocks of client and node are less than an hour apart, and the node's is at most a second behind. -/
structure InTouch (t now : UInt64) : Prop where
  fits : t.toNat+3600000 < 2^64
  behind : t.toNat ≤ now.toNat+1000
  ahead : now.toNat < t.toNat+3600000

theorem certFor_valid {D : Signer} (hs : Signs S.toCrypto D) (ck : ClientKeys) (t now : UInt64) (trusted : List Bytes)
    (hca : (D.verifyingKey ck.ca).toList∈trusted) (ht : InTouch t now) :
    validateCert S.toCrypto (certView (clientCert D ck (UInt64.ofNat (t.toNat-1000)) (t+3600000))) trusted now=.ok () := by
  have hfits := ht.fits
  have hbehind := ht.behind
  have hahead := ht.ahead
  have hlt := t.toNat_lt
  apply clientCert_valid hs ck _ _ now trusted hca
  · rw [UInt64.le_iff_toNat_le,UInt64.toNat_ofNat_of_lt' (by rw [UInt64.size]; omega)]
    omega
  · rw [UInt64.lt_iff_toNat_lt,UInt64.toNat_add]
    have hhour : (3600000 : UInt64).toNat=3600000 := by decide
    rw [hhour,Nat.mod_eq_of_lt hfits]
    exact hahead

theorem certFor_length (D : Signer) (ck : ClientKeys) (t : UInt64) : 2+(certFor D ck t).length+lenBindingSig ≤ 4096 := by
  rw [certFor,buildCert,clientCertTbs]
  simp only [pushField16,List.length_append,fixed_length,beBytes_length,put64_length,List.length_replicate,
    List.length_cons,List.length_nil]
  decide

/-- What the client seals of one letter fits the buffer of the loop. -/
def Letter.Fits (l : Letter) : Prop := l.body.length+Letter.overhead+headerSize+16 ≤ recvSize

theorem Letter.Fits.body {l : Letter} (h : l.Fits) : l.body.length ≤ maxBody := by
  have hroom : recvSize ≤ maxBody := by decide
  rw [Letter.Fits] at h
  omega

theorem Letter.Fits.wire {l : Letter} (h : l.Fits) (D : Signer) (sigKey : FixedBytes 32) :
    (l.wire D sigKey).length ≤ 4096 := by
  have hroom : recvSize=4096 := rfl
  rw [Letter.Fits] at h
  rw [l.wire_length]
  omega

theorem sendAll_lengths (hA : A.Correct) {s : Transport.Session} {D : Signer} {sigKey : FixedBytes 32}
    {letters : List Letter} {wires : List Bytes} (hfit : ∀l∈letters,l.Fits)
    (hsent : ∀(k : Nat) (wire pt : Bytes),wires[k]?=some wire → (letters.map (Letter.wire D sigKey))[k]?=some pt →
      Seals A s wire pt)
    (hlen : wires.length=letters.length) : ∀wire∈wires,wire.length ≤ recvSize := by
  intro wire hw
  obtain ⟨k,hk,rfl⟩ := List.mem_iff_getElem.mp hw
  have hl : letters[k]?=some (letters.get ⟨k,by omega⟩) := List.getElem?_eq_getElem _
  have hseals := hsent k _ _ (List.getElem?_eq_getElem hk) (by rw [List.getElem?_map,hl]; rfl)
  have hroom : (letters.get ⟨k,by omega⟩).Fits := hfit _ (List.get_mem _ _)
  have hwire := hseals.length hA
  rw [Letter.wire_length] at hwire
  rw [Letter.Fits] at hroom
  omega

/-- A client in touch with a node that trusts its CA and has a place for it: the exchange and the binding frame join it,
every envelope it builds is sealed, fits a datagram and passes the checks that read nothing of the node, and what arrives
of them within 64 packets of their order is handled as they were built, each once and as it arrives. -/
theorem client_campaign (S : Suite) (hS : S.Laws) (A : Aead) (hA : A.Correct) (D : Signer) (hD : Signs S.toCrypto D)
    (keys : Keys) (e : Endpoint) (hi : InStep e.tables) (ck : ClientKeys) (si ei : Key)
    (hkex : ck.kex=KeyPair.fromSecret S si) (index : UInt32) (ts t : UInt64) (out bindOut : Outside) (slot : Slot)
    (hn : NonzeroSecrets S si keys.secretStatic ei out.ephSecret) (hp : e.hs.position=some slot)
    (hsend : ∀msg,out.send msg=true) (hca : (D.verifyingKey ck.ca).toList∈keys.caPubs) (ht : InTouch t bindOut.now)
    (letters : List Letter) (hfit : ∀l∈letters,l.Fits) (hcount : letters.length < 2^48) :
    ∃ex e₁ acts pkt e₂ call wires,
      exchangeWith S (answers S A keys e out) ck.kex (KeyPair.fromSecret S keys.secretStatic).pub keys.sigPub index ts ei=
        .ok ex ∧
      e.step S A keys (.datagram (sentMsg1 S si keys.secretStatic ei keys.sigPub index ts (fixed 16 [])) out)=
        some (e₁,acts) ∧
      sendBinding A ex (fun msg => (D.sign ck.sig msg).toList) (certFor D ck t)=(.ok pkt,sealing ex.session 1) ∧
      e₁.step S A keys (.datagram pkt bindOut)=some (e₂,[.opened (UInt32.ofNat slot),.bound call]) ∧
      e₂.daemon={ e.daemon with certs := e.daemon.certs++[((D.verifyingKey ck.sig).toList,certFor D ck t)] } ∧
      e₂.mem=e.mem ∧ e₂.disk=e.disk ∧
      sendAll A (sealing ex.session 1) (letters.map (Letter.wire D ck.sig))=
        (.ok wires,sealing ex.session (1+letters.length)) ∧
      (∀wire∈wires,wire.length ≤ recvSize) ∧
      (∀l∈letters,Sealed S (l.wire D ck.sig) (l.envelope D ck.sig)) ∧
      ∀arrivals : List (Nat × Outside),(∀a∈arrivals,a.1 < letters.length) →
        arrivals.Pairwise (fun a b => a.1≠b.1 ∧ a.1 < b.1+64) →
        (run (Endpoint.after S A keys) e₂ (arrivals.map (fun a => .datagram ((wires[a.1]?).getD []) a.2))).map
            (fun e => { e with sessions := e₂.sessions })=
          run (fun e a => e.handleEnvelope S a.2.io a.2.now (((letters.map (Letter.wire D ck.sig))[a.1]?).getD [])) e₂
            arrivals := by
  have hcert := buildCert_parses D ck (UInt64.ofNat (t.toNat-1000)) (t+3600000)
  have hkexPub : (clientCert D ck (UInt64.ofNat (t.toNat-1000)) (t+3600000)).kexPubkey=
      (KeyPair.fromSecret S si).pub.toList := by
    rw [clientCert,hkex]
  obtain ⟨ex,e₁,acts,pkt,e₂,call,hex,hfresh,hstep,hbinding,hbound,hjoined,hdaemon,hmem,hdisk⟩ := client_joins S hS A hA keys
    e hi si ei index ts out bindOut slot hn hp hsend (fun msg => (D.sign ck.sig msg).toList) (certFor D ck t) _ hcert
    (certFor_length D ck t) hkexPub (certFor_valid hD ck t bindOut.now keys.caPubs hca ht) (fun _ => fixed_length _)
    (fun hash => hD.verifies ck.sig domainBinding hash.toList)
  have hwires : ∀pt∈letters.map (Letter.wire D ck.sig),pt.length ≤ 4096 := by
    intro pt hpt
    obtain ⟨l,hl,rfl⟩ := List.mem_map.mp hpt
    exact (hfit l hl).wire D ck.sig
  have hone : (sealing ex.session 1).send.counter.toNat=1 := by
    rw [sealing_counter (by rw [hfresh]; decide),hfresh]
    rfl
  have hroom : (sealing ex.session 1).send.counter.toNat+(letters.map (Letter.wire D ck.sig)).length ≤ 2^48 := by
    rw [hone,List.length_map]
    omega
  obtain ⟨wires,hsent,hmany,hall⟩ := sendAll_ok hA hwires hroom
  have hlen := hsent
  rw [sealing_sealing,List.length_map] at hlen
  refine ⟨ex,e₁,acts,pkt,e₂,call,wires,?_,hstep,hbinding,hbound,?_,hmem,hdisk,hlen,?_,?_,?_⟩
  · rw [hkex]
    exact hex
  · rw [hdaemon]
    rfl
  · exact sendAll_lengths hA hfit (fun k wire pt hw hpt => (hall k wire pt hw hpt).1) (by rw [hmany,List.length_map])
  · exact fun l hl => l.sealed hD ck.sig (hfit l hl).body
  · intro arrivals hplaces horder
    have hin : ∀a∈arrivals,a.1 < (letters.map (Letter.wire D ck.sig)).length := by
      intro a ha
      rw [List.length_map]
      exact hplaces a ha
    obtain ⟨wires',hsent',hrun⟩ := ladder_delivers S A hA keys e₂ (sealing ex.session 1) hjoined _ hwires hroom arrivals hin
      horder
    have hsame := congrArg Prod.fst (hsent.symm.trans hsent')
    cases hsame
    exact hrun

end Campaign

section Sample

/-- Signatures that are two hashes of the key and the message. -/
def sampleSigner : Signer where
  verifyingKey seed := seed
  sign seed msg := fixed 64 ((sampleSuite.blake2s (seed.toList++msg)).toList++(sampleSuite.blake2s (seed.toList++msg)).toList)

def hashedSuite : Suite :=
  { sampleSuite with toCrypto := { sampleSuite.toCrypto with
      ed25519 := fun key msg sig =>
        sig==(sampleSuite.blake2s (key++msg)).toList++(sampleSuite.blake2s (key++msg)).toList } }

/-- The laws of a suite are of its agreement and its cipher. -/
theorem laws_of_crypto {S : Suite} (h : S.Laws) (K : Crypto) : { S with toCrypto := K }.Laws :=
  ⟨h.commutes,h.inPlace,h.decrypts⟩

theorem hashed_signs : Signs hashedSuite.toCrypto sampleSigner := by
  intro seed msg
  have hsig : (sampleSigner.sign seed msg).toList=
      (sampleSuite.blake2s (seed.toList++msg)).toList++(sampleSuite.blake2s (seed.toList++msg)).toList := by
    apply toList_fixed
    simp
  rw [hsig]
  exact beq_self_eq_true _

def sampleClient : ClientKeys where
  kex := KeyPair.fromSecret hashedSuite initiatorSecret
  sig := fixed 32 (List.replicate 32 1)
  approver := fixed 32 (List.replicate 32 2)
  ca := fixed 32 (List.replicate 32 3)

def sampleTrusting : Keys := ⟨responderSecret,responderSig,[List.replicate 32 3]⟩

def trustingBoot : Endpoint :=
  Endpoint.boot hashedSuite sampleTrusting (Resolver.new hashedSuite.toCrypto responderSig.toList) none ⟨[],none,[]⟩

/-- An intent that has no bytes, under a sequence number. -/
def sampleLetter (seq : UInt64) : Letter := ⟨fixed 32 [],seq,0,bodyIntent,[]⟩

theorem trusting_nonzero : NonzeroSecrets hashedSuite initiatorSecret responderSecret initiatorEph responderEph :=
  ⟨sample_nonzero.es,sample_nonzero.ss,sample_nonzero.ee,sample_nonzero.se⟩

theorem sample_sends (now : UInt64) (msg : Bytes) : (sampleOutside now).send msg=true := rfl

/-- The clocks are apart, and of two letters the second arrives first. -/
theorem client_campaign_sample :
    ∃ex e₁ acts pkt e₂ call wires,
      exchangeWith hashedSuite (answers hashedSuite chachaPoly sampleTrusting trustingBoot (sampleOutside 1000000))
        sampleClient.kex (KeyPair.fromSecret hashedSuite responderSecret).pub responderSig 7 1000040 initiatorEph=.ok ex ∧
      trustingBoot.step hashedSuite chachaPoly sampleTrusting (.datagram (sentMsg1 hashedSuite initiatorSecret
        responderSecret initiatorEph responderSig 7 1000040 (fixed 16 [])) (sampleOutside 1000000))=some (e₁,acts) ∧
      e₁.step hashedSuite chachaPoly sampleTrusting (.datagram pkt (sampleOutside 1000500))=
        some (e₂,[.opened 0,.bound call]) ∧
      sendAll chachaPoly (sealing ex.session 1)
          [(sampleLetter 1).wire sampleSigner sampleClient.sig,(sampleLetter 2).wire sampleSigner sampleClient.sig]=
        (.ok wires,sealing ex.session 3) ∧ (∀wire∈wires,wire.length ≤ recvSize) ∧
      (run (Endpoint.after hashedSuite chachaPoly sampleTrusting) e₂
          [.datagram ((wires[1]?).getD []) (sampleOutside 1000600),
            .datagram ((wires[0]?).getD []) (sampleOutside 1000700)]).map (fun e => { e with sessions := e₂.sessions })=
        run (fun e (a : Nat × Outside) => e.handleEnvelope hashedSuite a.2.io a.2.now
          (([(sampleLetter 1).wire sampleSigner sampleClient.sig,
            (sampleLetter 2).wire sampleSigner sampleClient.sig][a.1]?).getD [])) e₂
          [(1,sampleOutside 1000600),(0,sampleOutside 1000700)] := by
  have hlaws : hashedSuite.Laws := laws_of_crypto sampleSuite_laws _
  have hfit : ∀l∈[sampleLetter 1,sampleLetter 2],l.Fits := by
    intro l hl
    have hnil : l.body=[] := by
      rcases List.mem_pair.mp hl with rfl|rfl <;> rfl
    rw [Letter.Fits,hnil]
    decide
  obtain ⟨ex,e₁,acts,pkt,e₂,call,wires,hex,hstep,-,hbound,-,-,-,hwires,hlengths,-,harrive⟩ := client_campaign hashedSuite
    hlaws chachaPoly chachaPoly_correct sampleSigner hashed_signs sampleTrusting trustingBoot
    (inStep_boot hashedSuite sampleTrusting _ none _) sampleClient initiatorSecret initiatorEph rfl 7 1000040 1000000
    (sampleOutside 1000000) (sampleOutside 1000500) 0 trusting_nonzero (by decide +kernel) (sample_sends _)
    (List.mem_singleton.mpr (by decide +kernel))
    ⟨by decide,by decide,by decide⟩ [sampleLetter 1,sampleLetter 2] hfit (by decide)
  exact ⟨ex,e₁,acts,pkt,e₂,call,wires,hex,hstep,hbound,hwires,hlengths,
    harrive [(1,sampleOutside 1000600),(0,sampleOutside 1000700)] (by simp) (by simp)⟩

end Sample

end Bolina.Client
