import Bolina.Daemon.BoundSession
import Bolina.Daemon.Envelopes
import Bolina.Daemon.Service

namespace Bolina

open Codec Intent State Transport Control Noise GuardedRun BigEndian
open Handshake (Slot)

/-- In a list without two entries of one key, the first entry of a key is its last. -/
theorem lookup_reverse {α β : Type} [BEq α] [LawfulBEq α] (l : List (α × β)) (h : (l.map Prod.fst).Nodup) (k : α) :
    l.reverse.lookup k=l.lookup k := by
  induction l with
  | nil => rfl
  | cons kw l ih =>
    obtain ⟨k₁,w⟩ := kw
    have hk : k₁∉l.map Prod.fst := (List.nodup_cons.mp h).1
    have hrest := ih (List.nodup_cons.mp h).2
    rw [List.reverse_cons,List.lookup_append,hrest]
    by_cases heq : k=k₁
    · subst heq
      have hnone : l.lookup k=none := by
        rw [List.lookup_eq_none_iff]
        intro p hp
        have hkp : k≠p.1 := fun hkp => hk (List.mem_map.mpr ⟨p,hp,hkp.symm⟩)
        simpa using hkp
      simp [hnone]
    · have hbeq : (k==k₁)=false := beq_eq_false_iff_ne.mpr heq
      simp [List.lookup_cons,hbeq]

section Bindings

variable (S : Suite) (A : Aead) (keys : Keys)

/-- The sender key and the certificate that an input binds. -/
def Endpoint.binding (e : Endpoint) : Input → Option (Bytes × Bytes)
  | .sweep _ => none
  | .datagram pkt out =>
    if pkt.head?=some 4 then
      (e.opens A pkt).bind (fun sp =>
        if sp.1.bound then none
        else e.stores S keys out.now sp.2 sp.1.handshakeHash sp.1.localIndex)
    else none

def Service.binding (s : Service) : Event → Option (Bytes × Bytes)
  | .input x => s.endpoint.binding S A keys x
  | _ => none

/-- A daemon with the bindings of its run, the newest first. -/
abbrev Bound := Service × List (Bytes × Bytes)

def bindStep (o : Option Bound) (x : Event) : Option Bound :=
  o.bind (fun b => (b.1.step S A keys x).map (fun s => (s,(b.1.binding S A keys x).toList++b.2)))

variable {S A keys}

theorem handleEnvelope_certs {io : Io} {now : UInt64} {plain : Bytes} {e e' : Endpoint}
    (h : e.handleEnvelope S io now plain=some e') :
    e'.daemon.certs=e.daemon.certs ∧ e'.daemon.resolver=e.daemon.resolver := by
  rw [Endpoint.handleEnvelope] at h
  have hg := gated S e plain
  generalize e.gate S plain=r at h hg
  obtain ⟨through,e₁⟩ := r
  have hgate : e₁.daemon.certs=e.daemon.certs ∧ e₁.daemon.resolver=e.daemon.resolver := by cases hg <;> exact ⟨rfl,rfl⟩
  cases through with
  | false =>
    cases h
    exact hgate
  | true =>
    obtain ⟨⟨d,disk⟩,hd,heq⟩ := Option.map_eq_some_iff.mp h
    cases heq
    obtain ⟨hc,hr,-⟩ := dispatchEnvelope_certs _ _ _ _ _ _ _ hd
    exact ⟨hc.trans hgate.1,hr.trans hgate.2⟩

/-- The store takes what the binding message binds, behind what it holds. -/
theorem bindingEnds_certs {now : UInt64} {plain : Bytes} {hash : Key} {slot idx : UInt32} {e e' : Endpoint}
    {acts : List Act} (h : BindingEnds S keys now plain hash slot idx e e' acts) :
    e'.daemon.certs=e.daemon.certs++(e.stores S keys now plain hash slot).toList ∧
      e'.daemon.resolver=e.daemon.resolver := by
  cases h with
  | refused none =>
    rw [none]
    exact ⟨(List.append_nil _).symm,rfl⟩
  | silent none =>
    rw [none]
    exact ⟨(List.append_nil _).symm,rfl⟩
  | binds cert i peer sig parses named known ok stored =>
    rw [stored]
    change (e.setBound idx).daemon.certs++_=_ ∧ (e.setBound idx).daemon.resolver=_
    rw [setBound_daemon]
    exact ⟨rfl,rfl⟩

theorem handleTransport_certs {out : Outside} {pkt : Bytes} {e e' : Endpoint} {acts : List Act}
    (hk : pkt.head?=some 4) (h : e.handleTransport S A keys out pkt=some (e',acts)) :
    e'.daemon.certs=e.daemon.certs++(e.binding S A keys (.datagram pkt out)).toList ∧
      e'.daemon.resolver=e.daemon.resolver := by
  rw [Endpoint.binding,if_pos hk]
  cases handleTransport_ends h with
  | ignored none =>
    rw [none]
    exact ⟨(List.append_nil _).symm,rfl⟩
  | closed s recv none found key =>
    rw [none]
    exact ⟨(List.append_nil _).symm,rfl⟩
  | envelope s recv plain _ opens found key bound handled =>
    obtain ⟨hc,hr⟩ := handleEnvelope_certs handled
    rw [opens,Option.bind_some,if_pos bound,hc]
    exact ⟨(List.append_nil _).symm,hr⟩
  | binding s recv plain _ _ opens found key unbound ends =>
    have hends := bindingEnds_certs ends
    rw [opens,Option.bind_some,if_neg (by simp [unbound])]
    exact hends

/-- An input leaves the resources, and the store of certificates grows by what it binds. -/
theorem step_binding {e e' : Endpoint} {x : Input} {acts : List Act} (h : e.step S A keys x=some (e',acts)) :
    e'.daemon.certs=e.daemon.certs++(e.binding S A keys x).toList ∧ e'.daemon.resolver=e.daemon.resolver := by
  cases x with
  | sweep now =>
    cases h
    have hd := releaseStale_daemon now e
    exact ⟨(congrArg Daemon.certs hd).trans (List.append_nil _).symm,congrArg Daemon.resolver hd⟩
  | datagram pkt out =>
    by_cases h4 : pkt.head?=some 4
    · cases pkt with
      | nil => cases h4
      | cons b rest =>
        cases h4
        exact handleTransport_certs rfl h
    · rw [Endpoint.binding,if_neg h4,Option.toList_none,List.append_nil]
      by_cases h1 : pkt.head?=some 1
      · rw [Endpoint.step,handleDatagram_first h1] at h
        obtain ⟨hfull,hroom⟩ := handleHandshake_daemon h
        by_cases hm : MeetsFullTable e pkt
        · rw [hfull hm]
          exact ⟨rfl,rfl⟩
        · rw [hroom hm]
          exact ⟨rfl,rfl⟩
      · cases pkt with
        | nil =>
          cases h
          exact ⟨rfl,rfl⟩
        | cons b rest =>
          rw [Endpoint.step,Endpoint.handleDatagram.eq_def] at h
          dsimp only at h
          rw [if_neg (fun hb => h1 (congrArg some hb)),if_neg (fun hb => h4 (congrArg some hb))] at h
          cases h
          exact ⟨rfl,rfl⟩

/-- The store of certificates grows by the bindings and by nothing else. -/
theorem event_binding {s s' : Service} {x : Event} (h : s.step S A keys x=some s') :
    s'.endpoint.daemon.certs=s.endpoint.daemon.certs++(s.binding S A keys x).toList := by
  cases x with
  | input y =>
    obtain ⟨⟨e',acts⟩,he,heq⟩ := Option.map_eq_some_iff.mp h
    cases heq
    exact (step_binding he).1
  | post body now =>
    cases h
    exact (List.append_nil _).symm
  | addResource canonical =>
    cases h
    exact (List.append_nil _).symm
  | attachLedger io =>
    cases h
    rw [Service.attachLedger,Daemon.attachLedger]
    generalize GrantLedger.open io s.endpoint.disk=r
    obtain ⟨res,disk⟩ := r
    cases res <;> exact (List.append_nil _).symm

/-- What is bound is a certificate of the sender. -/
theorem stores_parses {now : UInt64} {plain : Bytes} {hash : Key} {slot : UInt32} {e : Endpoint} {kw : Bytes × Bytes}
    (h : e.stores S keys now plain hash slot=some kw) : ∃c,parseCert kw.2=.ok c ∧ c.sigPubkey=kw.1 := by
  rw [Endpoint.stores] at h
  split at h
  · cases h
  · cases hp : parseCert (boundCert plain) with
    | error err =>
      rw [hp] at h
      cases h
    | ok cert =>
      rw [hp] at h
      dsimp only at h
      split at h
      · rename_i hi
        cases hk : e.peerStatic ⟨slot.toNat,hi⟩ with
        | none =>
          rw [hk] at h
          cases h
        | some peer =>
          rw [hk] at h
          dsimp only at h
          split at h
          · cases h
          · cases h
            exact ⟨cert,hp,rfl⟩
      · cases h

theorem binding_parses {s : Service} {x : Event} {kw : Bytes × Bytes} (h : s.binding S A keys x=some kw) :
    ∃c,parseCert kw.2=.ok c ∧ c.sigPubkey=kw.1 := by
  cases x with
  | input y =>
    cases y with
    | sweep now => cases h
    | datagram pkt out =>
      rw [Service.binding,Endpoint.binding] at h
      split at h
      · obtain ⟨sp,-,hsp⟩ := Option.bind_eq_some_iff.mp h
        split at hsp
        · cases hsp
        · exact stores_parses hsp
      · cases h
  | post body now => cases h
  | addResource canonical => cases h
  | attachLedger io => cases h

end Bindings

/-- Each entry is a certificate. -/
def AllParse (l : List (Bytes × Bytes)) : Prop := ∀kw∈l,∃c,parseCert kw.2=.ok c

/-- The certificate of a sender is that of its first entry. -/
theorem certForSender_lookup (d : Daemon) (h : AllParse d.certs) (k : Bytes) :
    d.certForSender k=(d.certs.lookup k).bind (fun w => (parseCert w).toOption) := by
  rw [Daemon.certForSender,Daemon.parsedCerts]
  generalize d.certs=l at h
  induction l with
  | nil => rfl
  | cons kw l ih =>
    obtain ⟨k₁,w⟩ := kw
    obtain ⟨c,hc⟩ := h (k₁,w) List.mem_cons_self
    have hrest := ih (fun kw hkw => h kw (List.mem_cons_of_mem _ hkw))
    by_cases hk : k=k₁
    · subst hk
      simp [hc,Except.toOption]
    · have hl : (k==k₁)=false := beq_eq_false_iff_ne.mpr hk
      have hr : (k₁==k)=false := beq_eq_false_iff_ne.mpr (fun he => hk he.symm)
      rw [List.lookup_cons,hl,List.filterMap_cons,hc]
      dsimp only
      rw [List.find?_cons,hr]
      exact hrest

section Renewed

variable (S : Suite) (A : Aead) (keys : Keys)

/-- The certificate at hand for a sender is that of its newest binding, and the store
holds one entry for a sender. -/
structure Renewed (b : Bound) : Prop where
  newest : ∀k w,b.2.lookup k=some w → b.1.endpoint.daemon.certForSender k=(parseCert w).toOption
  single : (b.1.endpoint.daemon.certs.map Prod.fst).Nodup

def RenewedIn (o : Option Bound) : Prop := ∀b,o=some b → Renewed b

/-- No sender binds that has bound before in the run. -/
def FirstBinding (o : Option Bound) (x : Event) : Prop :=
  ∀b s kw,o=some b → b.1.step S A keys x=some s → b.1.binding S A keys x=some kw → kw.1∉b.2.map Prod.fst

/-- The store is the bindings of the run. -/
structure Recorded (b : Bound) : Prop where
  store : b.1.endpoint.daemon.certs=b.2.reverse
  parse : AllParse b.2

def RecordedIn (o : Option Bound) : Prop := ∀b,o=some b → Recorded b

variable {S A keys}

theorem recordedIn_step (o : Option Bound) (x : Event) (h : RecordedIn o) : RecordedIn (bindStep S A keys o x) := by
  intro b' hb'
  obtain ⟨b,rfl,hs⟩ := Option.bind_eq_some_iff.mp hb'
  obtain ⟨s',hs',rfl⟩ := Option.map_eq_some_iff.mp hs
  have hb := h b rfl
  constructor
  · dsimp only
    rw [event_binding hs',hb.store,List.reverse_append]
    congr 1
    cases b.1.binding S A keys x <;> rfl
  · intro kw hkw
    obtain hnew|hold := List.mem_append.mp hkw
    · obtain ⟨c,hc,-⟩ := binding_parses (Option.mem_toList.mp hnew)
      exact ⟨c,hc⟩
    · exact hb.parse kw hold

/-- With one entry for each sender the first entry is the newest. -/
theorem renewed_of_nodup {b : Bound} (hb : Recorded b) (h : (b.2.map Prod.fst).Nodup) : Renewed b := by
  have hsingle : (b.1.endpoint.daemon.certs.map Prod.fst).Nodup := by
    rw [hb.store,List.map_reverse,List.nodup_reverse]
    exact h
  refine ⟨?_,hsingle⟩
  intro k w hw
  have hparse : AllParse b.1.endpoint.daemon.certs := by
    intro kw hkw
    rw [hb.store,List.mem_reverse] at hkw
    exact hb.parse kw hkw
  rw [certForSender_lookup _ hparse,hb.store,lookup_reverse b.2 h k,hw]
  rfl

theorem nodup_of_renewed {b : Bound} (hb : Recorded b) (h : Renewed b) : (b.2.map Prod.fst).Nodup := by
  have hs := h.single
  rw [hb.store,List.map_reverse,List.nodup_reverse] at hs
  exact hs

/-- From a store that renews, an event leaves one when its sender binds first, and then only. -/
theorem renewedIn_iff (o : Option Bound) (x : Event) (hr : RecordedIn o) (h : RenewedIn o) :
    RenewedIn (bindStep S A keys o x) ↔ FirstBinding S A keys o x := by
  have hr' := @recordedIn_step S A keys o x hr
  constructor
  · intro hn b s kw hb hs hkw
    subst hb
    have hstep : bindStep S A keys (some b) x=some (s,kw::b.2) := by
      rw [bindStep,Option.bind_some,hs,hkw]
      rfl
    have hnodup := nodup_of_renewed (hr' _ hstep) (hn _ hstep)
    exact (List.nodup_cons.mp hnodup).1
  · intro hf b' hb'
    have hrec := hr' b' hb'
    obtain ⟨b,hb,hmap⟩ := Option.bind_eq_some_iff.mp hb'
    obtain ⟨s,hs,heq⟩ := Option.map_eq_some_iff.mp hmap
    have hold := nodup_of_renewed (hr b hb) (h b hb)
    apply renewed_of_nodup hrec
    subst heq
    dsimp only
    cases hk : b.1.binding S A keys x with
    | none => exact hold
    | some kw => exact List.nodup_cons.mpr ⟨hf b s kw hb hs hk,hold⟩

end Renewed

/-- The newest certificate of every sender is at hand, and no sender has two entries, in
every state of exactly the runs in which no sender binds twice. -/
theorem renewed_certs (S : Suite) (A : Aead) (keys : Keys) (disk : Disk) (xs : List Event) :
    Always (bindStep S A keys) RenewedIn (some (Service.new S keys disk,[])) xs ↔
      Meets (bindStep S A keys) (FirstBinding S A keys) (some (Service.new S keys disk,[])) xs := by
  have hrec : RecordedIn (some (Service.new S keys disk,[])) := by
    intro b hb
    cases hb
    exact ⟨rfl,fun kw hkw => (by cases hkw)⟩
  have hnew : RenewedIn (some (Service.new S keys disk,[])) := by
    intro b hb
    exact renewed_of_nodup (hrec b hb) (by cases hb; exact List.nodup_nil)
  exact @always_iff_meets _ _ (bindStep S A keys) (FirstBinding S A keys) RenewedIn RecordedIn
    recordedIn_step renewedIn_iff _ xs hrec hnew

section Sample

variable {S : Suite} {A : Aead} {keys : Keys}

/-- Where the daemon goes on, its bindings are recorded. -/
theorem bindStep_serve (xs : List Event) (s s' : Service) (l : List (Bytes × Bytes)) (hl : Recorded (s,l))
    (h : xs.foldl (serve S A keys) (some s)=some s') :
    ∃l',xs.foldl (bindStep S A keys) (some (s,l))=some (s',l') ∧ Recorded (s',l') := by
  induction xs generalizing s l with
  | nil =>
    cases h
    exact ⟨l,rfl,hl⟩
  | cons x xs ih =>
    rw [List.foldl_cons] at h
    cases hx : s.step S A keys x with
    | none =>
      have hs : serve S A keys (some s) x=none := hx
      rw [hs,serve_none] at h
      cases h
    | some s₁ =>
      have hs : serve S A keys (some s) x=some s₁ := hx
      have hb : bindStep S A keys (some (s,l)) x=some (s₁,(s.binding S A keys x).toList++l) := by
        rw [bindStep,Option.bind_some,hx]
        rfl
      have hrec := recordedIn_step (some (s,l)) x (fun b hb => (by cases hb; exact hl)) _ hb
      rw [hs] at h
      rw [List.foldl_cons,hb]
      exact ih s₁ _ hrec h

/-- A session that an initiator opens and binds at once. -/
theorem session_stores {s : Service} {out : Outside} {wire sig : Bytes} {cert : Cert} (hi : InStep s.endpoint.tables)
    (hS : S.Laws) (hA : A.Correct) {si ei : Key} (index : UInt32) {ts : UInt64} (cookie : Mac) {i : Slot}
    (hn : Handshake.NonzeroSecrets S si keys.secretStatic ei out.ephSecret) (hfree : s.endpoint.hs.position=some i)
    (hsend : ∀msg,out.send msg=true) (hsig : sig.length=lenBindingSig) (hp : parseCert wire=.ok cert)
    (hfit : 2+wire.length+lenBindingSig ≤ 4096)
    (hok : bindSession S.toCrypto (certView cert) sig
      (Handshake.agreed S si keys.secretStatic ei out.ephSecret ts out.now).handshakeHash.toList
      (Handshake.agreed S si keys.secretStatic ei out.ephSecret ts out.now).peerStatic.toList keys.caPubs out.now=.ok ()) :
    ∃(xs : List Event) (s' : Service),xs.foldl (serve S A keys) (some s)=some s' ∧ InStep s'.endpoint.tables ∧
      s'.endpoint.daemon.certs=s.endpoint.daemon.certs++[(cert.sigPubkey,wire)] ∧
      s'.endpoint.hs=⟨Function.update s.endpoint.hs.slots i
        (some (Handshake.agreed S si keys.secretStatic ei out.ephSecret ts out.now))⟩ := by
  have hopen := @step_sent S A keys s.endpoint out hi hS si ei index ts cookie i hn hfree (hsend _)
  obtain ⟨pkt,window,call,hbind⟩ := @first_packet_bound S A keys s.endpoint out wire sig cert hS hA si ei out.ephSecret
    hn index i ts out.now out.later hsig hp hfit hok
  generalize Handshake.agreed S si keys.secretStatic ei out.ephSecret ts out.now=session at hopen hbind ⊢
  generalize sentMsg1 S si keys.secretStatic ei keys.sigPub index ts cookie=msg1 at hopen
  have hcommit : InStep (s.endpoint.commit i session out.later).tables := hi.commit i session out.later
  have hin := (step_effect hcommit hbind).inStep hcommit
  refine ⟨[.input (.datagram msg1 out),.input (.datagram pkt out)],⟨_,s.metrics⟩,?_,hin,?_,?_⟩
  · have hfirst : serve S A keys (some s) (.input (.datagram msg1 out))=
        some { s with endpoint := s.endpoint.commit i session out.later } := serve_input hopen
    rw [List.foldl_cons,hfirst]
    exact serve_input hbind
  · dsimp only
    rw [setBound_daemon]
    rfl
  · dsimp only
    rw [Endpoint.setBound]
    split <;> rfl

def renewedCaSig : Bytes :=
  beBytes 32 0x68997a381c7ca88cf9fcd2f5f6a44c6c40bcca53f321e89380b036c092d3e9ff++
    beBytes 32 0xad2fb63801033f3baddb391b36bf0ef1fcdbfc373033d51aeab5d56accb6ed0b

/-- The peer's signature over the hash of its second exchange. -/
def renewedSig : Bytes :=
  beBytes 32 0x604a528b88c08c6f69a9ad531fb1a9c99ca51ce1ca311c7b64f3cd305986cc5d++
    beBytes 32 0x35af70b495f8c22be7e0d314d5c7ba33b62e5d3c87891646ff2a305963b9d907

/-- The sample certificate again, in force for longer. -/
def renewedCert : Cert :=
  let c := { tiedCert with notAfter := 2030000 }
  { c with
    tbs := certTbs c
    caSigs := firstCa++renewedCaSig }

def renewedHash : Key :=
  (Handshake.agreed sampleSuite initiatorSecret responderSecret initiatorEph responderEph 1700086400000 0).handshakeHash

def renewedSuite : Suite :=
  signingSuite sampleSuite
    [(firstCa,domainCert::tiedCert.tbs,tiedCaSig),(peerKey,domainBinding::exchangeHash.toList,tiedSig),
      (firstCa,domainCert::renewedCert.tbs,renewedCaSig),(peerKey,domainBinding::renewedHash.toList,renewedSig)]

theorem renewedCert_valid : validateCert renewedSuite.toCrypto (certView renewedCert) sampleCas 1000000=.ok () := by
  decide +kernel

theorem tied_binds (peer : Key) (hp : tiedCert.kexPubkey=peer.toList) :
    bindSession renewedSuite.toCrypto (certView tiedCert) tiedSig exchangeHash.toList peer.toList sampleCas 1000000=
      .ok () :=
  bindSession_signing sampleSuite.toCrypto (by decide +kernel) hp (List.mem_cons_of_mem _ List.mem_cons_self)
    (beBytes_length _ _) (by decide +kernel)

theorem renewed_binds (peer : Key) (hp : renewedCert.kexPubkey=peer.toList) :
    bindSession renewedSuite.toCrypto (certView renewedCert) renewedSig renewedHash.toList peer.toList sampleCas 1000000=
      .ok () :=
  bindSession_signing sampleSuite.toCrypto renewedCert_valid hp
    (List.mem_cons_of_mem _ (List.mem_cons_of_mem _ (List.mem_cons_of_mem _ List.mem_cons_self)))
    (beBytes_length _ _) (by decide +kernel)

def tiedService : Service := Service.new renewedSuite tiedKeys ⟨[],none,[]⟩

/-- The peer binds a session, and a second one with its renewed certificate: the store
holds both, and the first is at hand. -/
theorem old_certificate_stays : ∃(xs : List Event) (s : Service),
    xs.foldl (serve renewedSuite chachaPoly tiedKeys) (some tiedService)=some s ∧
      s.endpoint.daemon.certs=[(peerKey,encodeCert tiedCert),(peerKey,encodeCert renewedCert)] := by
  have hlaws : renewedSuite.Laws := signingSuite_laws sampleSuite _ sampleSuite_laws
  have hn : Handshake.NonzeroSecrets renewedSuite initiatorSecret responderSecret initiatorEph responderEph :=
    signingSuite_nonzero sampleSuite _ _ _ _ _ sample_nonzero
  have hin : InStep tiedService.endpoint.tables := inStep_boot renewedSuite tiedKeys _ none _
  obtain ⟨xs,s,hxs,hi,hcerts,hhs⟩ := @session_stores renewedSuite chachaPoly tiedKeys tiedService (sampleOutside 1000000)
    (encodeCert tiedCert) tiedSig tiedCert hin hlaws chachaPoly_correct initiatorSecret initiatorEph 7 1700000000000
    (fixed 16 []) 0 hn (by decide +kernel) (fun _ => rfl) (by decide +kernel) (by decide +kernel) (by decide +kernel)
    (tied_binds _ (by decide +kernel))
  have hsecond : s.endpoint.hs.position=some 1 := by
    rw [hhs]
    decide +kernel
  obtain ⟨ys,s',hys,-,hcerts',-⟩ := @session_stores renewedSuite chachaPoly tiedKeys s (sampleOutside 1000000)
    (encodeCert renewedCert) renewedSig renewedCert hi hlaws chachaPoly_correct initiatorSecret initiatorEph 8
    1700086400000 (fixed 16 []) 1 hn hsecond (fun _ => rfl) (by decide +kernel) (by decide +kernel) (by decide +kernel)
    (renewed_binds _ (by decide +kernel))
  refine ⟨xs++ys,s',?_,?_⟩
  · rw [List.foldl_append,hxs]
    exact hys
  · rw [hcerts',hcerts]
    rfl

/-- After the renewal the certificate at hand is the old one. -/
theorem renewal_is_lost :
    ¬∀xs : List Event,Always (bindStep renewedSuite chachaPoly tiedKeys) RenewedIn (some (tiedService,[])) xs := by
  intro h
  obtain ⟨xs,s,hxs,hcerts⟩ := old_certificate_stays
  have hnew : Recorded (tiedService,[]) := ⟨rfl,fun kw hkw => (by cases hkw)⟩
  obtain ⟨l,hl,hrec⟩ := bindStep_serve xs tiedService s [] hnew hxs
  have hrenewed : Renewed (s,l) := by
    have hlast := always_foldl _ _ (h xs)
    exact hlast _ hl
  have hstore : l=[(peerKey,encodeCert renewedCert),(peerKey,encodeCert tiedCert)] := by
    rw [← List.reverse_reverse l,← hrec.store,hcerts]
    rfl
  have hfirst : s.endpoint.daemon.certForSender peerKey=some tiedCert := by
    rw [Daemon.certForSender,Daemon.parsedCerts,hcerts]
    decide +kernel
  have hnewest : l.lookup peerKey=some (encodeCert renewedCert) := by
    rw [hstore,List.lookup_cons_self]
  have hparse : (parseCert (encodeCert renewedCert)).toOption=some renewedCert := by decide +kernel
  have hlast := hrenewed.newest peerKey _ hnewest
  rw [hfirst,hparse] at hlast
  have hafter : tiedCert.notAfter=renewedCert.notAfter := congrArg Cert.notAfter (Option.some.inj hlast)
  exact absurd hafter (by decide)

end Sample

end Bolina
