import Bolina.Daemon.RejectAccounting
import Bolina.Evidence.CheckedLedger
import Bolina.Transport.CheckedDispatch
import Bolina.Transport.CheckedSession

namespace Bolina.Checked

open BigEndian Panic Transport State Control
open Codec (Crypto Envelope Grant Cert)
open Noise (Suite)
open Evidence (Hash)
open Handshake (Slot)

/-- A byte string in memory. -/
abbrev Slice := { bs : Bytes // bs.length < sliceLimit }

section Counters

def bump (w : WireCounters) (c : WireRejectClass) : Option WireCounters := do
  let n ← add (← index w.rejects.toList c.index) 1
  let rejects ← exact (← setAt w.rejects.toList c.index n) WireRejectClass.count
  return { w with rejects }

/-- The events that stay when one more comes; the oldest is removed by its index. -/
def kept (r : EventRing) : Option (List (Nat × EventTag)) := do
  if r.events.length=ringCap then
    let _oldest ← index r.events 0
    return r.events.drop 1
  else return r.events

def publish (r : EventRing) (tag : EventTag) : Option EventRing := do
  let nextSeq ← add r.nextSeq 1
  let events ← kept r
  if bounded : (events++[(r.nextSeq,tag)]).length ≤ ringCap then
    return { events := events++[(r.nextSeq,tag)],nextSeq,bounded }
  else none

/-- A rejection in its class. -/
def rejectAs (d : Daemon) (c : WireRejectClass) : Option Daemon := do
  let rejectedTotal ← add d.rejectedTotal 1
  let wire ← bump d.wire c
  return { d with rejectedTotal,wire }

def reject (e : Endpoint) (c : WireRejectClass) : Option Endpoint := do
  let daemon ← rejectAs e.daemon c
  return { e with daemon }

def publishEvent (d : Daemon) (tag : EventTag) : Option Daemon := do
  let ring ← publish d.ring tag
  return { d with ring }

def report (d : Daemon) : Outcome → Option Daemon
  | .IntentAdmitted => do
    let admissionsTotal ← add d.wire.admissionsTotal 1
    publishEvent { d with wire := { d.wire with admissionsTotal } } .IntentAdmitted
  | .GrantExecuted => publishEvent d .GrantExecuted
  | .EffectRefused => publishEvent d .EffectRefused
  | .RefusalApplied => publishEvent d .RefusalApplied
  | .Control => publishEvent d .ControlApplied
  | .Effect => some d
  | .Utterance => some d

end Counters

section Envelopes

/-- The array a grant id is copied to. -/
def grantKey (grantId : Bytes) : Option GrantId :=
  if grantId.length=16 then copyArray 16 grantId else some (fixed 16 [])

/-- The commit reports every failure of the file as an error. -/
def executeEffect (io : Io) (now : UInt64) (g : Grant) (n : Node) : Option (EffectOutcome × Node) := do
  let gid ← grantKey g.grantId
  match n.ledger with
  | none => return (.Refused,n)
  | some l => return (.Refused,(Store.commitConsumed io ⟨l,n.disk⟩ gid g.notAfter now).2.node)

def alreadyConsumed (n : Node) (grantId : Bytes) (_ _ : UInt64) : Option Bool := do
  let gid ← grantKey grantId
  match n.ledger with
  | none => return false
  | some l => return l.isConsumed gid

def ledgerHooks (io : Io) (now : UInt64) (certForSender : Bytes → Option Cert) : Hooks Node where
  executeEffect := executeEffect io now
  certForSender := certForSender
  onRejected _ n := n
  isRevoked _ _ := false
  alreadyConsumed := alreadyConsumed

def parsedCerts : List (Bytes × Bytes) → Option (List (Bytes × Cert))
  | [] => some []
  | kw::rest => do
    match ← parseCert kw.2 with
    | .ok c => return (kw.1,c)::(← parsedCerts rest)
    | .error _ => parsedCerts rest

/-- A node without a certificate of its own has an empty file. -/
def parsedOwn (cert : Slice) : Option (Option Cert) := do
  if cert.val=[] then return none
  else
    match ← parseCert cert.val with
    | .ok c => return some c
    | .error _ => return none

def dispatchEnvelope (K : Crypto) (io : Io) (now : UInt64) (ownCert : Slice) (plain : Bytes) (d : Daemon) (disk : Disk) :
    Option (Daemon × Disk) := do
  let _own ← parsedOwn ownCert
  let certs ← parsedCerts d.certs
  let certForSender := fun sender : Bytes => (certs.find? (fun kc => kc.1==sender)).map (fun kc => kc.2)
  match ← dispatch K d.dispatcher plain (ledgerHooks io now certForSender) now ⟨d.ledger,disk⟩ with
  | (.error e,t,n) => return (← rejectAs (d.store t n) (.ofDispatch e),n.disk)
  | (.ok outcome,t,n) => return (← report (d.store t n) outcome,n.disk)

def chunks32 (parents : Bytes) : Option (List Hash) :=
  (List.range (parents.length/32)).mapM (fun i => exact (slice parents (32*i) 32) 32)

end Envelopes

section Machine

variable (S : Suite) (A : Aead) (keys : Keys) (ownCert : Slice)

def gate (plain : Bytes) (e : Endpoint) : Option (Bool × Endpoint) := do
  match ← parseEnvelope plain with
  | .error _ => return (false,← reject e .Parse)
  | .ok env =>
    if env.sender.length≠32 ∨ env.channelId.length≠32 then return (false,← reject e .Parse)
    else
      match ← verifyEnvelope S.toCrypto env with
      | some ve => return (false,← reject e (.ofVerify ve))
      | none =>
        let sender ← exact env.sender 32
        let channel ← exact env.channelId 32
        if env.parents.length≠(← mul env.parentCount.toNat 32) then return (false,← reject e .Parse)
        else
          let parents ← chunks32 env.parents
          let hash := S.blake2s plain
          match e.mem.findEnvelope sender channel env.seq with
          | some existing => if existing=hash then return (false,e) else return (false,← reject e .VEquivocation)
          | none =>
            match ← verifyEnvelopeAdmission e.mem hash sender channel env.seq parents with
            | (.error ve,mem) => return (false,← reject { e with mem } (.ofVerify ve))
            | (.ok _,mem) => return (true,{ e with mem })

def handleEnvelope (io : Io) (now : UInt64) (plain : Bytes) (e : Endpoint) : Option Endpoint := do
  let (passes,e) ← gate S plain e
  if passes then
    let (daemon,disk) ← dispatchEnvelope S.toCrypto io now ownCert plain e.daemon e.disk
    return { e with daemon,disk }
  else return e

def setBound (e : Endpoint) (receiverIdx : UInt32) : Option Endpoint := do
  match ← lookup e.sessions receiverIdx with
  | some session => return { e with sessions := e.sessions.put receiverIdx { session with bound := true } }
  | none => return e

def handleBinding (now : UInt64) (plain : Bytes) (handshakeHash : Key) (slot receiverIdx : UInt32) (e : Endpoint) :
    Option (Endpoint × List Act) := do
  if plain.length < 2+lenBindingSig then return (← reject e .Binding,[])
  else
    let certLen := beNat [← index plain 0,← index plain 1]
    let certEnd ← add 2 certLen
    let sigEnd ← add certEnd lenBindingSig
    if plain.length < sigEnd then return (← reject e .Binding,[])
    else
      let certWire ← range plain 2 certEnd
      let bindSig ← range plain certEnd sigEnd
      match ← parseCert certWire with
      | .error _ => return (← reject e .Binding,[])
      | .ok cert =>
        match ← place e.peerStatic slot.toNat with
        | none => return (e,[])
        | some peer =>
          match ← bindSession S.toCrypto (certView cert) bindSig handshakeHash.toList peer.toList keys.caPubs now with
          | .error _ => return (← reject e .Binding,[])
          | .ok _ =>
            let e ← setBound e receiverIdx
            return ({ e with daemon := { e.daemon with certs := e.daemon.certs++[(cert.sigPubkey,certWire)] } },
              [.bound ⟨receiverIdx,certView cert,bindSig,handshakeHash,peer,now⟩])

/-- The four bytes of the receiver's index, one by one. -/
def receiverIndex (pkt : Bytes) : Option UInt32 := do
  return be32 [← index pkt 4,← index pkt 5,← index pkt 6,← index pkt 7]

def packetCounter (pkt : Bytes) : Option UInt64 := do
  return be64 [← index pkt 8,← index pkt 9,← index pkt 10,← index pkt 11,← index pkt 12,← index pkt 13,← index pkt 14,
    ← index pkt 15]

def handleTransport (out : Outside) (pkt : Bytes) (e : Endpoint) : Option (Endpoint × List Act) := do
  if pkt.length < headerSize+16 then return (e,[])
  else
    let receiverIdx ← receiverIndex pkt
    let counter ← packetCounter pkt
    match ← lookup e.sessions receiverIdx with
    | none => return (e,[])
    | some session =>
      match ← sessionOpen A session pkt counter ptBuf with
      | (.error _,session') =>
        return (← reject { e with sessions := e.sessions.put receiverIdx session' } .Transport,[])
      | (.ok (n,pt),session') =>
        let e' := { e with sessions := e.sessions.put receiverIdx session' }
        let plain ← range pt 0 n
        if session'.bound then
          let e'' ← handleEnvelope S ownCert out.io out.now plain e'
          return (e'',[.opened receiverIdx])
        else
          let (e'',acts) ← handleBinding S keys out.now plain session'.handshakeHash session'.localIndex receiverIdx e'
          return (e'',.opened receiverIdx::acts)

def handleHandshake (out : Outside) (pkt : Bytes) (e : Endpoint) : Option (Endpoint × List Act) := do
  match ← processDatagram S e.hs pkt keys.secretStatic keys.sigPub out.ephSecret out.send out.now with
  | (.error .TableFull,hs,sent) =>
    let wire ← bump e.daemon.wire .HandshakeFull
    return ({ e with hs,daemon := { e.daemon with wire } },sent.map Act.sent)
  | (.error _,hs,sent) => return ({ e with hs },sent.map Act.sent)
  | (.ok slot,hs,sent) =>
    let acts := sent.map Act.sent++[.committed slot]
    match ← place hs.slots slot with
    | none => return ({ e with hs },acts)
    | some s =>
      match ← admitSession e.sessions (UInt32.ofNat slot) 0 s.sendKey s.recvKey s.handshakeHash out.later with
      | (.error _,sessions) => return ({ e with hs,sessions },acts)
      | (.ok _,sessions) =>
        let peerStatic ← setPlace e.peerStatic slot (some s.peerStatic)
        return ({ e with hs,sessions,peerStatic },acts)

def handleDatagram (out : Outside) (pkt : Bytes) (e : Endpoint) : Option (Endpoint × List Act) := do
  if pkt=[] then return (e,[])
  else
    let kind ← index pkt 0
    if kind=1 then handleHandshake S keys out pkt e
    else if kind=4 then handleTransport S A keys ownCert out pkt e
    else return (e,[])

end Machine

/-- No counter of the daemon stands at the last number of its word. -/
structure Room (d : Daemon) : Prop where
  rejected : d.rejectedTotal+1 < wordLimit
  rejects : ∀i,d.wire.rejects.get i+1 < wordLimit
  admissions : d.wire.admissionsTotal+1 < wordLimit
  events : d.ring.nextSeq+1 < wordLimit

section Counters

variable {d : Daemon}

theorem bump_eq {w : WireCounters} (h : ∀i,w.rejects.get i+1 < wordLimit) (c : WireRejectClass) :
    bump w c=some (w.bump c) := by
  have hlen : c.index < w.rejects.toList.length := by
    rw [List.Vector.toList_length]
    exact c.index_lt
  have hget : w.rejects.toList[c.index]=w.rejects.get ⟨c.index,c.index_lt⟩ := by
    rw [List.Vector.get_eq_get_toList]
    rfl
  have hset : w.rejects.toList.set c.index (w.rejects.get ⟨c.index,c.index_lt⟩+1)=
      (w.rejects.set ⟨c.index,c.index_lt⟩ (w.rejects.get ⟨c.index,c.index_lt⟩+1)).toList :=
    (List.Vector.toList_set w.rejects ⟨c.index,c.index_lt⟩ _).symm
  rw [bump,index_eq hlen,hget]
  simp only [Option.bind_eq_bind,Option.bind_some]
  rw [add_eq (h _)]
  simp only [Option.bind_some]
  rw [setAt,if_pos hlen,hset]
  simp only [Option.bind_some]
  rw [exact_eq (List.Vector.toList_length _)]
  rfl

theorem publish_eq {r : EventRing} (h : r.nextSeq+1 < wordLimit) (tag : EventTag) :
    publish r tag=some (r.publish tag) := by
  have hkept : kept r=some (if r.events.length=ringCap then r.events.drop 1 else r.events) := by
    rw [kept]
    by_cases hf : r.events.length=ringCap
    · have hpos : 0 < r.events.length := by
        rw [hf]
        decide
      rw [if_pos hf,if_pos hf,index_eq hpos]
      rfl
    · rw [if_neg hf,if_neg hf]
      rfl
  rw [publish,add_eq h,hkept]
  exact dif_pos (r.publish tag).bounded

theorem rejectAs_eq (h : Room d) (c : WireRejectClass) :
    rejectAs d c=some { d with rejectedTotal := d.rejectedTotal+1,wire := d.wire.bump c } := by
  rw [rejectAs,add_eq h.rejected,bump_eq h.rejects]
  rfl

theorem reject_eq {e : Endpoint} (h : Room e.daemon) (c : WireRejectClass) : reject e c=some (e.reject c) := by
  rw [reject,rejectAs_eq h]
  rfl

theorem publishEvent_eq (h : d.ring.nextSeq+1 < wordLimit) (tag : EventTag) :
    publishEvent d tag=some { d with ring := d.ring.publish tag } := by
  rw [publishEvent,publish_eq h]
  rfl

theorem report_eq (h : Room d) (o : Outcome) : report d o=some (d.report o) := by
  cases o with
  | IntentAdmitted =>
    rw [report,add_eq h.admissions]
    exact publishEvent_eq (d := { d with wire := { d.wire with admissionsTotal := d.wire.admissionsTotal+1 } }) h.events _
  | GrantExecuted => exact publishEvent_eq h.events _
  | EffectRefused => exact publishEvent_eq h.events _
  | RefusalApplied => exact publishEvent_eq h.events _
  | Control => exact publishEvent_eq h.events _
  | Effect => rfl
  | Utterance => rfl

end Counters

section Envelopes

variable {d : Daemon}

theorem grantKey_eq (grantId : Bytes) : grantKey grantId=some (Bolina.grantKey grantId) := by
  rw [grantKey,Bolina.grantKey]
  by_cases h : grantId.length=16
  · have hc := copyArray_toList (fixed 16 grantId)
    rw [toList_fixed grantId h] at hc
    rw [if_pos h,if_pos h,hc]
  · rw [if_neg h,if_neg h]

/-- The hooks of the daemon never panic. -/
theorem ledgerHooks_eq (io : Io) (now : UInt64) (certForSender : Bytes → Option Cert) :
    ledgerHooks io now certForSender=ofHooks (Bolina.ledgerHooks io now certForSender) := by
  have hx : ∀g n,executeEffect io now g n=some (Bolina.executeEffect io now g n) := by
    intro g n
    rw [executeEffect,Bolina.executeEffect,grantKey_eq]
    cases n.ledger <;> rfl
  have hc : ∀n id a b,alreadyConsumed n id a b=some (Bolina.alreadyConsumed n id a b) := by
    intro n id a b
    rw [alreadyConsumed,Bolina.alreadyConsumed,grantKey_eq]
    cases n.ledger <;> rfl
  have hxs : executeEffect io now=fun g n => some (Bolina.executeEffect io now g n) := funext fun g => funext (hx g)
  have hcs : alreadyConsumed=fun n id a b => some (Bolina.alreadyConsumed n id a b) :=
    funext fun n => funext fun id => funext fun a => funext (hc n id a)
  rw [ledgerHooks,hxs,hcs]
  rfl

theorem parsedCerts_eq (h : ∀kw∈d.certs,kw.2.length < sliceLimit) : parsedCerts d.certs=some d.parsedCerts := by
  rw [Daemon.parsedCerts]
  generalize d.certs=certs at h
  induction certs with
  | nil => rfl
  | cons kw certs ih =>
    rw [parsedCerts,parseCert_eq (h kw List.mem_cons_self),ih (fun kw hkw => h kw (List.mem_cons_of_mem _ hkw)),
      List.filterMap_cons]
    simp only [Option.bind_eq_bind,Option.bind_some]
    cases Codec.parseCert kw.2 <;> rfl

theorem parsedOwn_returns (cert : Slice) : ∃own,parsedOwn cert=some own := by
  rw [parsedOwn,parseCert_eq cert.property]
  simp only [Option.bind_eq_bind,Option.bind_some]
  split
  · exact ⟨_,rfl⟩
  · cases Codec.parseCert cert.val <;> exact ⟨_,rfl⟩

theorem chunks32_eq (parents : Bytes) : chunks32 parents=some (Bolina.chunks32 parents) := by
  refine mapM_some _ _ _ fun i hi => exact_fixed ?_
  have hlt := List.mem_range.mp hi
  rw [slice,List.length_take,List.length_drop]
  omega

/-- Both return, and the same. -/
def Returns {α : Type} (p q : Option α) : Prop := ∃a,p=some a ∧ q=some a

theorem dispatchEnvelope_returns {K : Crypto} {io : Io} {now : UInt64} {ownCert : Slice} {plain : Bytes} {disk : Disk}
    (hl : plain.length < sliceLimit) (hnow : now.toNat < 2^63) (hf : Fits d.resolver) (hr : Room d)
    (hc : ∀kw∈d.certs,kw.2.length < sliceLimit) :
    Returns (dispatchEnvelope K io now ownCert plain d disk) (d.dispatchEnvelope K io now plain disk) := by
  obtain ⟨own,hown⟩ := parsedOwn_returns ownCert
  have hcert : (fun sender : Bytes => (d.parsedCerts.find? (fun kc => kc.1==sender)).map (fun kc => kc.2))=
      d.certForSender := rfl
  obtain ⟨⟨res,t,n⟩,hd,hd'⟩ := @dispatch_ends Node K d.dispatcher now plain hl hf hnow
    (Bolina.ledgerHooks io now d.certForSender) ⟨d.ledger,disk⟩
  have hstore : Room (d.store t n) := ⟨hr.rejected,hr.rejects,hr.admissions,hr.events⟩
  rw [dispatchEnvelope,Daemon.dispatchEnvelope,hown,parsedCerts_eq hc]
  simp only [Option.bind_eq_bind,Option.bind_some]
  rw [hcert,ledgerHooks_eq,hd,hd']
  cases res with
  | error err =>
    simp only [Option.bind_some,rejectAs_eq hstore]
    exact ⟨_,rfl,rfl⟩
  | ok outcome =>
    simp only [Option.bind_some,report_eq hstore]
    exact ⟨_,rfl,rfl⟩

end Envelopes

/-- The bytes of a field, read one by one. -/
theorem front_two (bs : Bytes) (h : 2 ≤ bs.length) : bs.take 2=[bs[0],bs[1]] := by
  have h0 := take_drop_succ bs 0 1 (by omega)
  rw [take_drop_succ bs 1 0 (by omega)] at h0
  exact h0

/-- No event counter stands at the last number of its word. -/
structure HasRoom (e : Endpoint) : Prop where
  daemon : Room e.daemon
  inserts : e.mem.insertsTotal+1 < wordLimit
  storefull : e.mem.storefullTotal+1 < wordLimit

/-- What the daemon holds when a datagram comes: resources and certificates within their
bounds, and room in its counters. -/
structure Ready (e : Endpoint) : Prop where
  resources : Fits e.daemon.resolver
  certs : ∀kw∈e.daemon.certs,kw.2.length < sliceLimit
  counters : HasRoom e

section Machine

variable {S : Suite} {A : Aead} {keys : Keys} {ownCert : Slice} {e : Endpoint} {plain : Bytes}

theorem gate_eq (h : Ready e) (hl : plain.length < sliceLimit) : gate S plain e=some (e.gate S plain) := by
  rw [gate,Endpoint.gate,parseEnvelope_eq hl]
  simp only [Option.bind_eq_bind,Option.bind_some]
  cases hp : Codec.parseEnvelope plain with
  | error err =>
    dsimp only
    rw [reject_eq h.counters.daemon]
    rfl
  | ok env =>
    dsimp only
    by_cases hw : env.sender.length≠32 ∨ env.channelId.length≠32
    · rw [if_pos hw,if_pos hw,reject_eq h.counters.daemon]
      rfl
    obtain ⟨hsender,hchannel⟩ := not_or.mp hw
    rw [if_neg hw,if_neg hw,verifyEnvelope_eq ((parsedEnvelope_tbs hp).trans_lt hl)]
    simp only [Option.bind_some]
    cases Transport.verifyEnvelope S.toCrypto env with
    | some ve =>
      dsimp only
      rw [reject_eq h.counters.daemon]
      rfl
    | none =>
      have hcount : env.parentCount.toNat*32 < wordLimit := by
        have hb := env.parentCount.toNat_lt
        rw [wordLimit]
        omega
      dsimp only
      rw [exact_fixed (not_not.mp hsender),exact_fixed (not_not.mp hchannel),mul_eq hcount]
      simp only [Option.bind_some]
      by_cases hparents : env.parents.length≠env.parentCount.toNat*32
      · rw [if_pos hparents,if_pos hparents,reject_eq h.counters.daemon]
        rfl
      rw [if_neg hparents,if_neg hparents,chunks32_eq]
      simp only [Option.bind_some]
      cases e.mem.findEnvelope (fixed 32 env.sender) (fixed 32 env.channelId) env.seq with
      | some existing =>
        dsimp only
        by_cases hsame : existing=S.blake2s plain
        · rw [if_pos hsame,if_pos hsame]
          rfl
        · rw [if_neg hsame,if_neg hsame,reject_eq h.counters.daemon]
          rfl
      | none =>
        dsimp only
        rw [verifyEnvelopeAdmission_eq _ _ _ _ _ h.counters.inserts h.counters.storefull]
        simp only [Option.bind_some]
        cases e.mem.verifyEnvelopeAdmission (S.blake2s plain) (fixed 32 env.sender) (fixed 32 env.channelId) env.seq
            (Bolina.chunks32 env.parents) with
        | mk res mem =>
          have hreject : ∀c,reject { e with mem } c=some (Endpoint.reject { e with mem } c) :=
            fun c => reject_eq (e := { e with mem }) h.counters.daemon c
          cases res with
          | error ve =>
            dsimp only
            rw [hreject]
            rfl
          | ok _ => rfl

theorem handleEnvelope_returns (h : Ready e) (hl : plain.length < sliceLimit) {now : UInt64} (hnow : now.toNat < 2^63)
    (io : Io) : Returns (handleEnvelope S ownCert io now plain e) (e.handleEnvelope S io now plain) := by
  have hpass := (gate_grewAlike (S := S) e plain).1
  rw [handleEnvelope,Endpoint.handleEnvelope,gate_eq h hl]
  simp only [Option.bind_eq_bind,Option.bind_some]
  cases hg : e.gate S plain with
  | mk passes e' =>
    cases passes with
    | false => exact ⟨_,rfl,rfl⟩
    | true =>
      rw [hg] at hpass
      have hd : e'.daemon=e.daemon := hpass rfl
      obtain ⟨⟨daemon,disk⟩,hx,hx'⟩ := @dispatchEnvelope_returns e.daemon S.toCrypto io now ownCert plain e'.disk hl hnow
        h.resources h.counters.daemon h.certs
      dsimp only
      rw [hd,if_pos rfl,hx,hx']
      exact ⟨_,rfl,rfl⟩

theorem setBound_eq (idx : UInt32) : setBound e idx=some (e.setBound idx) := by
  rw [setBound,Endpoint.setBound,lookup_eq]
  simp only [Option.bind_eq_bind,Option.bind_some]
  cases e.sessions.lookup idx <;> rfl

theorem handleBinding_returns (h : Room e.daemon) (hl : plain.length < sliceLimit) {slot : UInt32}
    (hslot : slot.toNat < Handshake.maxSessions) (now : UInt64) (hash : Key) (idx : UInt32) :
    Returns (handleBinding S keys now plain hash slot idx e) (e.handleBinding S keys now plain hash slot idx) := by
  have hrejected : Returns (do return (← reject e .Binding,([] : List Act))) (some (e.reject .Binding,[])) := by
    rw [reject_eq h]
    exact ⟨_,rfl,rfl⟩
  have hsig : lenBindingSig=64 := rfl
  rw [handleBinding,Endpoint.handleBinding]
  by_cases hshort : plain.length < 2+lenBindingSig
  · rw [if_pos hshort,if_pos hshort]
    exact hrejected
  have hlong : 66 ≤ plain.length := Nat.not_lt.mp hshort
  have htwo := front_two plain (by omega)
  have hcert : beNat (plain.take 2) < 65536 := by
    have hb := beNat_lt (plain.take 2)
    rw [List.length_take,Nat.min_eq_left (by omega)] at hb
    exact hb
  rw [if_neg hshort,if_neg hshort,index_eq (i := 0) (by omega),index_eq (i := 1) (by omega)]
  simp only [Option.bind_eq_bind,Option.bind_some]
  rw [← htwo,add_eq (by rw [wordLimit]; omega)]
  simp only [Option.bind_some]
  rw [add_eq (by rw [wordLimit]; omega)]
  simp only [Option.bind_some]
  by_cases hcut : plain.length < 2+beNat (plain.take 2)+lenBindingSig
  · rw [if_pos hcut,if_pos hcut]
    exact hrejected
  rw [if_neg hcut,if_neg hcut,range_add (by omega),range_add (by omega)]
  simp only [Option.bind_some]
  have hwire : ((plain.drop 2).take (beNat (plain.take 2))).length < sliceLimit := by
    rw [List.length_take]
    omega
  rw [parseCert_eq hwire]
  simp only [Option.bind_some]
  cases hp : Codec.parseCert ((plain.drop 2).take (beNat (plain.take 2))) with
  | error err => exact hrejected
  | ok cert =>
    dsimp only
    rw [place,dif_pos hslot,dif_pos hslot]
    simp only [Option.bind_some]
    cases e.peerStatic ⟨slot.toNat,hslot⟩ with
    | none => exact ⟨_,rfl,rfl⟩
    | some peer =>
      have htbs : (certView cert).tbs.length < sliceLimit := (parsedCert_tbs hp).trans_lt hwire
      have hcount : (certView cert).caSigCount ≤ 256 := cert.caSigCount.toNat_lt.le
      have hhash : hash.toList.length < sliceLimit := by
        rw [List.Vector.toList_length]
        decide
      dsimp only
      rw [bindSession_eq htbs hcount hhash]
      simp only [Option.bind_some,setBound_eq]
      cases Transport.bindSession S.toCrypto (certView cert)
          ((plain.drop (2+beNat (plain.take 2))).take lenBindingSig) hash.toList peer.toList keys.caPubs now with
      | error err => exact hrejected
      | ok _ => exact ⟨_,rfl,rfl⟩

end Machine

section Datagrams

variable {S : Suite} {A : Aead} {keys : Keys} {ownCert : Slice} {e : Endpoint}

theorem receiverIndex_eq (pkt : Bytes) (h : 16 ≤ pkt.length) : receiverIndex pkt=some (be32 (slice pkt 4 4)) := by
  rw [receiverIndex,slice,take_drop_succ pkt 4 3 (by omega),take_drop_succ pkt 5 2 (by omega),
    take_drop_succ pkt 6 1 (by omega),take_drop_succ pkt 7 0 (by omega),index_eq (i := 4) (by omega),
    index_eq (i := 5) (by omega),index_eq (i := 6) (by omega),index_eq (i := 7) (by omega)]
  rfl

theorem packetCounter_eq (pkt : Bytes) (h : 16 ≤ pkt.length) : packetCounter pkt=some (headerCounter pkt) := by
  rw [packetCounter,headerCounter,take_drop_succ pkt 8 7 (by omega),take_drop_succ pkt 9 6 (by omega),
    take_drop_succ pkt 10 5 (by omega),take_drop_succ pkt 11 4 (by omega),take_drop_succ pkt 12 3 (by omega),
    take_drop_succ pkt 13 2 (by omega),take_drop_succ pkt 14 1 (by omega),take_drop_succ pkt 15 0 (by omega),
    index_eq (i := 8) (by omega),index_eq (i := 9) (by omega),index_eq (i := 10) (by omega),
    index_eq (i := 11) (by omega),index_eq (i := 12) (by omega),index_eq (i := 13) (by omega),
    index_eq (i := 14) (by omega),index_eq (i := 15) (by omega)]
  rfl

/-- What is opened fills the front of the buffer. -/
theorem open_fits (hA : TagLast A) (s s' : Session) (packet out pt : Bytes) (c : UInt64) (n : Nat)
    (h : s.open A packet c out=(.ok (n,pt),s')) : n ≤ pt.length ∧ pt.length=out.length := by
  rw [Session.open] at h
  by_cases hs : packet.length < headerSize
  · rw [if_pos hs] at h
    cases h
  rw [if_neg hs,RecvState.open] at h
  by_cases hc : (packet.drop headerSize).length < 16
  · rw [if_pos hc] at h
    cases h
  rw [if_neg hc] at h
  dsimp only at h
  by_cases ho : out.length < (packet.drop headerSize).length-16
  · rw [if_pos ho] at h
    cases h
  rw [if_neg ho] at h
  cases hd : A.decrypt s.recv.key (Transport.transportNonce c) (packet.drop headerSize) (packet.take headerSize) with
  | none =>
    rw [hd] at h
    cases h
  | some p =>
    have hp := hA _ _ _ _ _ hd
    rw [hd] at h
    dsimp only at h
    cases hw : s.recv.window.check c with
    | mk fresh window =>
      rw [hw] at h
      cases fresh with
      | false => cases h
      | true =>
        cases h
        simp only [List.length_append,List.length_drop] at hp ho ⊢
        omega

theorem handleTransport_returns (hA : TagLast A) (h : Ready e) (hi : InStep e.tables) {out : Outside}
    (hnow : out.now.toNat < 2^63) (pkt : Bytes) :
    Returns (handleTransport S A keys ownCert out pkt e) (e.handleTransport S A keys out pkt) := by
  have hheader : headerSize=16 := rfl
  rw [handleTransport,Endpoint.handleTransport]
  by_cases hshort : pkt.length < headerSize+16
  · rw [if_pos hshort,if_pos hshort]
    exact ⟨_,rfl,rfl⟩
  rw [if_neg hshort,if_neg hshort,receiverIndex_eq pkt (by omega),packetCounter_eq pkt (by omega)]
  simp only [Option.bind_eq_bind,Option.bind_some,lookup_eq]
  cases hf : e.sessions.lookup (be32 (slice pkt 4 4)) with
  | none => exact ⟨_,rfl,rfl⟩
  | some session =>
    dsimp only
    rw [sessionOpen_eq hA]
    simp only [Option.bind_some]
    obtain ⟨res,recv,ho,-⟩ := open_window A session pkt ptBuf (headerCounter pkt)
    rw [ho]
    cases res with
    | error err =>
      have hr : Room (Endpoint.daemon { e with
        sessions := e.sessions.put (be32 (slice pkt 4 4)) { session with recv } }) := h.counters.daemon
      dsimp only
      rw [reject_eq hr]
      exact ⟨_,rfl,rfl⟩
    | ok r =>
      obtain ⟨n,pt⟩ := r
      obtain ⟨hn,hlen⟩ := open_fits hA session _ pkt ptBuf pt _ n ho
      obtain ⟨hindex,hslot⟩ := hi.within _ _ hf
      have hplain : (pt.take n).length < sliceLimit := by
        have hbuf : ptBuf.length=4096 := List.length_replicate
        rw [List.length_take,hlen,hbuf,sliceLimit]
        omega
      have hready : Ready { e with sessions := e.sessions.put (be32 (slice pkt 4 4)) { session with recv } } :=
        ⟨h.resources,h.certs,h.counters.daemon,h.counters.inserts,h.counters.storefull⟩
      dsimp only
      rw [range_front hn]
      simp only [Option.bind_some]
      by_cases hb : session.bound=true
      · obtain ⟨e',he,he'⟩ := @handleEnvelope_returns S ownCert _ _ hready hplain _ hnow out.io
        rw [if_pos hb,if_pos hb,he,he']
        exact ⟨_,rfl,rfl⟩
      · obtain ⟨ea,he,he'⟩ := @handleBinding_returns S keys _ _ hready.counters.daemon hplain
          session.localIndex (hindex ▸ hslot) out.now session.handshakeHash (be32 (slice pkt 4 4))
        rw [if_neg hb,if_neg hb,he,he']
        exact ⟨_,rfl,rfl⟩

theorem handleHandshake_returns (hS : InPlace S) (h : Ready e) (out : Outside) (pkt : Bytes) :
    Returns (handleHandshake S keys out pkt e) (e.handleHandshake S keys out pkt) := by
  obtain ⟨res,hs,sent,hp,-⟩ := Handshake.processed S e.hs pkt keys.secretStatic keys.sigPub out.ephSecret out.send
    out.now
  rw [handleHandshake,Endpoint.handleHandshake,processDatagram_eq hS,hp]
  simp only [Option.bind_eq_bind,Option.bind_some]
  cases res with
  | error err =>
    cases err with
    | TableFull =>
      dsimp only
      rw [bump_eq h.counters.daemon.rejects]
      exact ⟨_,rfl,rfl⟩
    | _ => exact ⟨_,rfl,rfl⟩
  | ok slot =>
    dsimp only
    rw [place_fin]
    simp only [Option.bind_some]
    cases hs.slots slot with
    | none => exact ⟨_,rfl,rfl⟩
    | some s =>
      dsimp only
      rw [admitSession_eq]
      simp only [Option.bind_some]
      cases e.sessions.admit (UInt32.ofNat slot) 0 s.sendKey s.recvKey s.handshakeHash out.later with
      | mk res sessions =>
        cases res with
        | error err => exact ⟨_,rfl,rfl⟩
        | ok _ =>
          dsimp only
          rw [setPlace_fin]
          exact ⟨_,rfl,rfl⟩

/-- On a daemon that is ready, no operation on the way of a datagram leaves its range. -/
theorem handleDatagram_returns (hS : InPlace S) (hA : TagLast A) (h : Ready e) (hi : InStep e.tables) {out : Outside}
    (hnow : out.now.toNat < 2^63) (pkt : Bytes) :
    Returns (handleDatagram S A keys ownCert out pkt e) (e.handleDatagram S A keys out pkt) := by
  rw [handleDatagram]
  cases pkt with
  | nil => exact ⟨_,rfl,rfl⟩
  | cons b rest =>
    have hkind : index (b::rest) 0=some b := rfl
    rw [Endpoint.handleDatagram,if_neg (List.cons_ne_nil b rest),hkind]
    simp only [Option.bind_eq_bind,Option.bind_some]
    by_cases h1 : b=1
    · rw [if_pos h1,if_pos h1]
      exact handleHandshake_returns hS h out (b::rest)
    rw [if_neg h1,if_neg h1]
    by_cases h4 : b=4
    · rw [if_pos h4,if_pos h4]
      exact handleTransport_returns hA h hi hnow (b::rest)
    · rw [if_neg h4,if_neg h4]
      exact ⟨_,rfl,rfl⟩

end Datagrams

end Bolina.Checked
