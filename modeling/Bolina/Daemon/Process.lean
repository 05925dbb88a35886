import Bolina.Control.PostIntent
import Bolina.Daemon.Daemon
import Bolina.State.IntentStale
import Bolina.Transport.Binding

namespace Bolina

open Codec Intent State Transport Control BigEndian

def lenBindingSig : Nat := 64

def Daemon.rejectBinding (d : Daemon) : Daemon :=
  { d with
    rejectedTotal := d.rejectedTotal+1
    wire := d.wire.bump .Binding }

/-- The first packet of a session: the length of a certificate in two bytes, the
certificate, and a signature over the hash of the handshake. -/
def Daemon.handleBinding (K : Crypto) (caPubs : List Bytes) (plain handshakeHash : Bytes)
    (peerStatic : Option Bytes) (now : UInt64) (d : Daemon) : Daemon :=
  if plain.length < 2+lenBindingSig then d.rejectBinding
  else
    let certLen := beNat (plain.take 2)
    if plain.length < 2+certLen+lenBindingSig then d.rejectBinding
    else
      let certWire := (plain.drop 2).take certLen
      let bindSig := (plain.drop (2+certLen)).take lenBindingSig
      match parseCert certWire with
      | .error _ => d.rejectBinding
      | .ok cert =>
        match peerStatic with
        | none => d
        | some peer =>
          match bindSession K (certView cert) bindSig handshakeHash peer caPubs now with
          | .error _ => d.rejectBinding
          | .ok _ => { d with certs := d.certs++[(cert.sigPubkey,certWire)] }

/-- A daemon with the counters of its control plane and the file of its ledger. -/
structure Process where
  daemon : Daemon
  metrics : Metrics
  disk : Disk

/-- A datagram that opens to a binding or to an envelope that the gates in front of
the dispatcher let through, a post, or a tick of the loop that does none of these. -/
inductive ProcessStep where
  | binding (plain handshakeHash : Bytes) (peerStatic : Option Bytes) (now : UInt64)
  | envelope (io : Io) (plain : Bytes) (now : UInt64)
  | post (body : List Char) (now : UInt64)
  | tick (now : UInt64)

def ProcessStep.now : ProcessStep → UInt64
  | .binding _ _ _ now => now
  | .envelope _ _ now => now
  | .post _ now => now
  | .tick now => now

/-- A fresh daemon with the resources declared at boot and the ledger that was attached. -/
def Process.boot (K : Crypto) (sigPub : Bytes) (resolver : Resolver) (ledger : Option GrantLedger)
    (disk : Disk) : Process :=
  ⟨{ Daemon.new K sigPub with resolver,ledger },⟨0⟩,disk⟩

/-- `none` when the process ends in a panic. Slot sweeps and control ticks leave the
intent table alone. -/
def Process.step (K : Crypto) (caPubs : List Bytes) (p : Process) : ProcessStep → Option Process
  | .binding plain handshakeHash peerStatic now =>
    some { p with daemon := p.daemon.handleBinding K caPubs plain handshakeHash peerStatic now }
  | .envelope io plain now =>
    (p.daemon.dispatchEnvelope K io now plain p.disk).map (fun dd => { p with daemon := dd.1,disk := dd.2 })
  | .post body now =>
    match postIntent body p.daemon.resolver p.daemon.intents p.metrics p.daemon.ring now with
    | (_,intents,metrics,ring) => some { p with daemon := { p.daemon with intents,ring },metrics }
  | .tick _ => some p

/-- A step of a process that may have ended. -/
def next (K : Crypto) (caPubs : List Bytes) (o : Option Process) (x : ProcessStep) : Option Process :=
  o.bind (fun p => p.step K caPubs x)

/-- The grants on which a step runs the effect hook. -/
def Process.executed (K : Crypto) (p : Process) : ProcessStep → List Grant
  | .envelope io plain now => p.daemon.executed K io now plain p.disk
  | _ => []

/-- The certificate in a binding. -/
def boundCert (plain : Bytes) : Bytes := (plain.drop 2).take (beNat (plain.take 2))

/-- The step is a binding with this certificate, which is valid at its time. -/
def Presents (K : Crypto) (caPubs : List Bytes) (cert : Cert) : ProcessStep → Prop
  | .binding plain _ _ now =>
    parseCert (boundCert plain)=.ok cert ∧ validateCert K (certView cert) caPubs now=.ok ()
  | _ => False

/-- The step stored this certificate under the key it names. -/
def Binds (K : Crypto) (caPubs : List Bytes) (kw : Bytes × Bytes) (x : ProcessStep) : Prop :=
  ∃cert,parseCert kw.2=.ok cert ∧ kw.1=cert.sigPubkey ∧ Presents K caPubs cert x

/-- No entry of the table is beyond its places, and every stored certificate was valid once. -/
structure Process.Sound (K : Crypto) (caPubs : List Bytes) (p : Process) : Prop where
  fits : p.daemon.intents.entries.length ≤ maxPending
  bound : ∀kw∈p.daemon.certs,∃x,Binds K caPubs kw x

section Step

variable {K : Crypto} {caPubs : List Bytes} {p p' : Process}

/-- A binding stores at most one certificate, and leaves the intents. -/
theorem handleBinding_certs (d : Daemon) (plain handshakeHash : Bytes) (peerStatic : Option Bytes)
    (now : UInt64) :
    (d.handleBinding K caPubs plain handshakeHash peerStatic now).intents=d.intents ∧
      ∀kw∈(d.handleBinding K caPubs plain handshakeHash peerStatic now).certs,
        kw∈d.certs ∨ Binds K caPubs kw (.binding plain handshakeHash peerStatic now) := by
  have hsame : ∀d' : Daemon,d'.intents=d.intents → d'.certs=d.certs →
      d'.intents=d.intents ∧
        ∀kw∈d'.certs,kw∈d.certs ∨ Binds K caPubs kw (.binding plain handshakeHash peerStatic now) := by
    intro d' hi hc
    refine ⟨hi,fun kw hkw => Or.inl ?_⟩
    rw [← hc]
    exact hkw
  rw [Daemon.handleBinding]
  by_cases hshort : plain.length < 2+lenBindingSig
  · rw [if_pos hshort]
    exact hsame _ rfl rfl
  rw [if_neg hshort]
  by_cases hlen : plain.length < 2+beNat (plain.take 2)+lenBindingSig
  · rw [if_pos hlen]
    exact hsame _ rfl rfl
  rw [if_neg hlen]
  cases hp : parseCert ((plain.drop 2).take (beNat (plain.take 2))) with
  | error e =>
    simp only [hp]
    exact hsame _ rfl rfl
  | ok cert =>
    simp only [hp]
    cases peerStatic with
    | none => exact hsame _ rfl rfl
    | some peer =>
      simp only
      cases hb : bindSession K (certView cert) ((plain.drop (2+beNat (plain.take 2))).take lenBindingSig)
          handshakeHash peer caPubs now with
      | error e => exact hsame _ rfl rfl
      | ok _ =>
        refine ⟨rfl,fun kw hkw => ?_⟩
        cases List.mem_append.mp hkw with
        | inl hold => exact Or.inl hold
        | inr hnew =>
          rw [List.mem_singleton.mp hnew]
          exact Or.inr ⟨cert,hp,rfl,hp,validateCert_of_bound _ _ _ _ _ _ _ hb⟩

theorem resolveAndAdmit_fits (r : Resolver) (t : Table) (intentId : FixedBytes 16) (resourceId : Bytes)
    (nowMs : UInt64) (h : t.entries.length ≤ maxPending) :
    (r.resolveAndAdmit t intentId resourceId nowMs).2.entries.length ≤ maxPending := by
  by_cases ha : ∃canonical,Admissible r t intentId resourceId canonical
  · obtain ⟨canonical,ha⟩ := ha
    obtain ⟨_,he⟩ := resolveAndAdmit_of_admissible nowMs ha
    rw [he,List.length_append,List.length_singleton]
    have hroom := ha.takes.room
    omega
  · obtain ⟨e,he⟩ := resolveAndAdmit_of_not_admissible nowMs (fun c hc => ha ⟨c,hc⟩)
    rw [he]
    exact h

theorem dispatch_fits {σ : Type} (d : Dispatch) (envBytes : Bytes) (hooks : Hooks σ) (nowMs : UInt64) (s : σ)
    (h : d.intentTable.entries.length ≤ maxPending) :
    (d.dispatch K envBytes hooks nowMs s).2.1.intentTable.entries.length ≤ maxPending := by
  cases happens K d envBytes hooks nowMs s with
  | proposes env i canonical hp =>
    rw [dispatch_of_proposes hp]
    split
    · exact resolveAndAdmit_fits _ _ _ _ _ h
    · exact resolveAndAdmit_fits _ _ _ _ _ h
  | executes grant hx =>
    rw [dispatch_of_executes hx]
    exact h
  | refuses env refusal cert hr =>
    rw [dispatch_of_refuses hr]
    exact (applyRefusal_fits _ _).trans h
  | idle hp hx hr =>
    obtain ⟨res,hd,_⟩ := dispatch_of_idle hp hx hr
    rw [hd]
    exact h

theorem postIntent_fits (body : List Char) (resolver : Resolver) (t : Table) (metrics : Metrics)
    (ring : EventRing) (nowMs : UInt64) (h : t.entries.length ≤ maxPending) :
    (postIntent body resolver t metrics ring nowMs).2.1.entries.length ≤ maxPending := by
  rw [postIntent]
  cases readPosted body with
  | none => exact h
  | some i =>
    have ha := resolveAndAdmit_fits resolver t i.intentId i.resource nowMs h
    simp only
    cases hr : resolver.resolveAndAdmit t i.intentId i.resource nowMs with
    | mk res t' =>
      rw [hr] at ha
      cases res with
      | ok _ => exact ha
      | error e =>
        simp only
        split <;> exact ha

/-- An envelope leaves the certificates and the resources, and of the dispatch the intents stay. -/
theorem dispatchEnvelope_certs (io : Io) (now : UInt64) (plain : Bytes) (d d' : Daemon) (disk disk' : Disk)
    (h : d.dispatchEnvelope K io now plain disk=some (d',disk')) :
    d'.certs=d.certs ∧ d'.resolver=d.resolver ∧ d'.intents=
      (d.dispatcher.dispatch K plain (ledgerHooks io now d.certForSender) now ⟨d.ledger,disk⟩).2.1.intentTable := by
  rw [Daemon.dispatchEnvelope] at h
  cases hr : d.dispatcher.dispatch K plain (ledgerHooks io now d.certForSender) now ⟨d.ledger,disk⟩ with
  | mk res tn =>
    obtain ⟨t,n⟩ := tn
    rw [hr] at h
    cases res with
    | error a =>
      cases a with
      | panic => cases h
      | err e =>
        cases h
        exact ⟨rfl,rfl,rfl⟩
    | ok o =>
      cases h
      cases o <;> exact ⟨rfl,rfl,rfl⟩

/-- What a step leaves: no more entries than places, and the certificates that were
stored or are stored by this step. -/
theorem step_certs (x : ProcessStep) (h : p.step K caPubs x=some p') :
    (p.daemon.intents.entries.length ≤ maxPending → p'.daemon.intents.entries.length ≤ maxPending) ∧
      ∀kw∈p'.daemon.certs,kw∈p.daemon.certs ∨ Binds K caPubs kw x := by
  cases x with
  | binding plain handshakeHash peerStatic now =>
    cases h
    obtain ⟨hi,hc⟩ := @handleBinding_certs K caPubs p.daemon plain handshakeHash peerStatic now
    refine ⟨fun hf => ?_,hc⟩
    show (p.daemon.handleBinding K caPubs plain handshakeHash peerStatic now).intents.entries.length ≤ maxPending
    rw [hi]
    exact hf
  | envelope io plain now =>
    rw [Process.step,Option.map_eq_some_iff] at h
    obtain ⟨dd,hd,rfl⟩ := h
    obtain ⟨hc,-,hi⟩ := dispatchEnvelope_certs io now plain p.daemon dd.1 p.disk dd.2 hd
    constructor
    · intro hf
      show dd.1.intents.entries.length ≤ maxPending
      rw [hi]
      exact dispatch_fits _ _ _ _ _ hf
    · intro kw hkw
      left
      rw [← hc]
      exact hkw
  | post body now =>
    cases h
    exact ⟨fun hf => postIntent_fits _ _ _ _ _ _ hf,fun kw hkw => Or.inl hkw⟩
  | tick now =>
    cases h
    exact ⟨fun hf => hf,fun kw hkw => Or.inl hkw⟩

theorem boot_sound (sigPub : Bytes) (resolver : Resolver) (ledger : Option GrantLedger) (disk : Disk) :
    (Process.boot K sigPub resolver ledger disk).Sound K caPubs := by
  refine ⟨Nat.zero_le _,fun kw hkw => ?_⟩
  cases hkw

theorem certForSender_mem (d : Daemon) (sender : Bytes) (c : Cert) (h : d.certForSender sender=some c) :
    ∃kw∈d.certs,kw.1=sender ∧ parseCert kw.2=.ok c := by
  rw [Daemon.certForSender,Option.map_eq_some_iff] at h
  obtain ⟨kc,hf,rfl⟩ := h
  have hfound := List.find?_some hf
  have hkey : kc.1=sender := eq_of_beq hfound
  have hm := List.mem_of_find?_eq_some hf
  rw [Daemon.parsedCerts,List.mem_filterMap] at hm
  obtain ⟨kw,hkw,hp⟩ := hm
  cases hc : parseCert kw.2 with
  | error e => simp [hc] at hp
  | ok c =>
    simp only [hc,Option.some.injEq] at hp
    rw [← hp] at hkey ⊢
    exact ⟨kw,hkw,hkey,hc⟩

/-- A certificate that the daemon knows has one role. -/
theorem Process.Sound.oneRole (hs : p.Sound K caPubs) (sender : Bytes) (c : Cert)
    (h : p.daemon.certForSender sender=some c) : OneRole c.roleBits := by
  obtain ⟨kw,hkw,_,hc⟩ := certForSender_mem p.daemon sender c h
  obtain ⟨x,cert,hp,_,hx⟩ := hs.bound kw hkw
  rw [hc] at hp
  cases hp
  cases x with
  | binding plain handshakeHash peerStatic now =>
    exact ((validateCert_iff K (certView c) caPubs now).mp hx.2).1.role
  | envelope io plain now => cases hx
  | post body now => cases hx
  | tick now => cases hx

/-- One certificate stands for both parties, so no grant gets past check 4. -/
theorem Process.Sound.not_matched (hs : p.Sound K caPubs) (io : Io) (now : UInt64) (n : Node) (env : Envelope)
    (grant : Grant) (cert : Cert) (hc : p.daemon.certForSender env.sender=some cert) :
    ¬Matched K env grant (p.daemon.dispatcher.grantContext (ledgerHooks io now p.daemon.certForSender) n cert now) := by
  intro hm
  exact (hs.oneRole env.sender cert hc).agentApprover ⟨hm.subjectRole,hm.approverRole⟩

theorem Process.Sound.executed (hs : p.Sound K caPubs) (x : ProcessStep) : p.executed K x=[] := by
  cases x with
  | binding plain handshakeHash peerStatic now => rfl
  | envelope io plain now =>
    apply executed_of_not_executes
    intro grant hx
    obtain ⟨env,cert,_,_,_,hc,ha,_⟩ := hx.passes
    exact hs.not_matched io now _ env grant cert hc ha.toMatched
  | post body now => rfl
  | tick now => rfl

/-- No step ends the process. -/
theorem Process.Sound.step (hs : p.Sound K caPubs) (x : ProcessStep) :
    ∃p',p.step K caPubs x=some p' ∧ p'.Sound K caPubs := by
  have hsome : ∃p',p.step K caPubs x=some p' := by
    cases x with
    | binding plain handshakeHash peerStatic now => exact ⟨_,rfl⟩
    | envelope io plain now =>
      rw [Process.step,Daemon.dispatchEnvelope]
      cases hr : p.daemon.dispatcher.dispatch K plain (ledgerHooks io now p.daemon.certForSender) now
          ⟨p.daemon.ledger,p.disk⟩ with
      | mk res tn =>
        cases res with
        | ok o => exact ⟨_,rfl⟩
        | error a =>
          cases a with
          | err e => exact ⟨_,rfl⟩
          | panic =>
            obtain ⟨env,grant,cert,hc,hp⟩ := panics_of_dispatch (congrArg Prod.fst hr)
            exact absurd hp.1 (hs.not_matched io now _ env grant cert hc)
    | post body now => exact ⟨_,rfl⟩
    | tick now => exact ⟨_,rfl⟩
  obtain ⟨p',hp⟩ := hsome
  obtain ⟨hf,hc⟩ := step_certs x hp
  refine ⟨p',hp,hf hs.fits,fun kw hkw => ?_⟩
  cases hc kw hkw with
  | inl hold => exact hs.bound kw hold
  | inr hnew => exact ⟨x,hnew⟩

/-- A process that runs, in a sound state. -/
def Running (K : Crypto) (caPubs : List Bytes) (o : Option Process) : Prop := ∃p,o=some p ∧ p.Sound K caPubs

theorem running_boot (sigPub : Bytes) (resolver : Resolver) (ledger : Option GrantLedger) (disk : Disk) :
    Running K caPubs (some (Process.boot K sigPub resolver ledger disk)) :=
  ⟨_,rfl,boot_sound sigPub resolver ledger disk⟩

theorem running_next (o : Option Process) (x : ProcessStep) (h : Running K caPubs o) :
    Running K caPubs (next K caPubs o x) := by
  obtain ⟨p,rfl,hs⟩ := h
  exact hs.step x

end Step

end Bolina
