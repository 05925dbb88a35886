import Bolina.Control.PostIntent
import Bolina.Daemon.Slots
import Bolina.Framework.GuardedRun

namespace Bolina

open Codec Intent State Transport Control Noise GuardedRun
open Handshake (Slot)

/-- The daemon with the counter that only its control plane moves. -/
structure Service where
  endpoint : Endpoint
  metrics : Metrics

def Service.new (S : Suite) (keys : Keys) (disk : Disk) : Service :=
  ⟨Endpoint.boot S keys (Resolver.new S.toCrypto keys.sigPub.toList) none disk,⟨0⟩⟩

/-- What happens to a daemon: a datagram or a sweep, an intent posted to the control
plane, a resource declared, a ledger attached. -/
inductive Event where
  | input (x : Input)
  | post (body : List Char) (now : UInt64)
  | addResource (canonical : Bytes)
  | attachLedger (io : Io)

section Step

variable (S : Suite) (A : Aead) (keys : Keys)

def Service.post (body : List Char) (now : UInt64) (s : Service) : Service :=
  let d := s.endpoint.daemon
  match postIntent body d.resolver d.intents s.metrics d.ring now with
  | (_,intents,metrics,ring) => ⟨{ s.endpoint with daemon := { d with intents,ring } },metrics⟩

/-- A resource that is refused changes nothing. -/
def Service.addResource (canonical : Bytes) (s : Service) : Service :=
  { s with endpoint := { s.endpoint with daemon := { s.endpoint.daemon with
      resolver := (s.endpoint.daemon.resolver.add canonical).2 } } }

/-- A file that does not open leaves the daemon without a new ledger. -/
def Service.attachLedger (io : Io) (s : Service) : Service :=
  match s.endpoint.daemon.attachLedger io s.endpoint.disk with
  | (.error _,disk) => { s with endpoint := { s.endpoint with disk } }
  | (.ok daemon,disk) => { s with endpoint := { s.endpoint with daemon,disk } }

/-- `none` when the process ends in a panic. -/
def Service.step (s : Service) : Event → Option Service
  | .input x => (s.endpoint.step S A keys x).map (fun ea => { s with endpoint := ea.1 })
  | .post body now => some (s.post body now)
  | .addResource canonical => some (s.addResource canonical)
  | .attachLedger io => some (s.attachLedger io)

/-- One event at a process that may have ended. -/
def serve (o : Option Service) (x : Event) : Option Service := o.bind (fun s => s.step S A keys x)

variable {S A keys}

/-- A daemon that has ended stays so. -/
theorem serve_none (xs : List Event) : xs.foldl (serve S A keys) none=none := by
  induction xs with
  | nil => rfl
  | cons x xs ih => exact ih

/-- An input that the endpoint takes is an event of the daemon. -/
theorem serve_input {s : Service} {x : Input} {e : Endpoint} {acts : List Act}
    (h : s.endpoint.step S A keys x=some (e,acts)) :
    serve S A keys (some s) (.input x)=some { s with endpoint := e } := by
  rw [serve,Option.bind_some,Service.step,h]
  rfl

/-- What every event keeps holds in every state a daemon reaches. -/
theorem served_invariant {P : Service → Prop} {s : Service} (xs : List Event) (h0 : P s)
    (hstep : ∀s x s',P s → s.step S A keys x=some s' → P s') (s' : Service)
    (h : xs.foldl (serve S A keys) (some s)=some s') : P s' := by
  induction xs generalizing s with
  | nil =>
    cases h
    exact h0
  | cons x xs ih =>
    rw [List.foldl_cons] at h
    cases hx : s.step S A keys x with
    | none =>
      have hs : serve S A keys (some s) x=none := hx
      rw [hs,serve_none] at h
      cases h
    | some s₁ =>
      have hs : serve S A keys (some s) x=some s₁ := hx
      rw [hs] at h
      exact ih (hstep s x s₁ h0 hx) h

/-- An event that is no input of the network leaves the three tables of the peers. -/
theorem step_tables_other {s s' : Service} {x : Event} (hx : ∀y,x≠.input y) (h : s.step S A keys x=some s') :
    s'.endpoint.tables=s.endpoint.tables := by
  cases x with
  | input y => exact absurd rfl (hx y)
  | post body now =>
    cases h
    rfl
  | addResource canonical =>
    cases h
    rfl
  | attachLedger io =>
    cases h
    rw [Service.attachLedger]
    generalize s.endpoint.daemon.attachLedger io s.endpoint.disk=r
    obtain ⟨res,disk⟩ := r
    cases res <;> rfl

theorem service_inStep {s s' : Service} {x : Event} (hi : InStep s.endpoint.tables)
    (h : s.step S A keys x=some s') : InStep s'.endpoint.tables := by
  cases x with
  | input y =>
    obtain ⟨⟨e',acts⟩,he,heq⟩ := Option.map_eq_some_iff.mp h
    cases heq
    exact (step_effect hi he).inStep hi
  | post body now => exact step_tables_other (fun _ => Event.noConfusion) h ▸ hi
  | addResource canonical => exact step_tables_other (fun _ => Event.noConfusion) h ▸ hi
  | attachLedger io => exact step_tables_other (fun _ => Event.noConfusion) h ▸ hi

end Step

section Frame

variable {S : Suite} {A : Aead} {keys : Keys}

/-- A first message finds every slot of the handshake table taken. -/
def MeetsFullTable (e : Endpoint) (pkt : Bytes) : Prop :=
  pkt.length=msg1Size ∧ pkt.head?=some 1 ∧ e.hs.hasFree=false

theorem setBound_daemon (e : Endpoint) (idx : UInt32) : (e.setBound idx).daemon=e.daemon := by
  rw [Endpoint.setBound]
  cases e.sessions.lookup idx <;> rfl

theorem releaseStale_daemon (now : UInt64) (e : Endpoint) : (e.releaseStaleSlots now).2.daemon=e.daemon := by
  have hfold : ∀(freed : List Slot) (e : Endpoint),(freed.foldl Endpoint.releaseHsSlot e).daemon=e.daemon := by
    intro freed
    induction freed with
    | nil => exact fun _ => rfl
    | cons i freed ih => exact fun e => ih _
  exact hfold _ { e with hs := (e.hs.releaseStale now Handshake.tHsIdleMs).2 }

/-- A handshake leaves what the dispatcher works on; at a full table it counts the message. -/
theorem handleHandshake_daemon {out : Outside} {pkt : Bytes} {e e' : Endpoint} {acts : List Act}
    (h : e.handleHandshake S keys out pkt=some (e',acts)) :
    (MeetsFullTable e pkt → e'.daemon={ e.daemon with wire := e.daemon.wire.bump .HandshakeFull }) ∧
    (¬MeetsFullTable e pkt → e'.daemon=e.daemon) := by
  rw [Endpoint.handleHandshake] at h
  obtain ⟨res,hs,sent,hp,-⟩ := Handshake.processed S e.hs pkt keys.secretStatic keys.sigPub out.ephSecret out.send
    out.now
  have hfull := (Handshake.processDatagram_ends S e.hs pkt _ _ _ _ _ hp).1
  rw [hp] at h
  cases res with
  | error err =>
    by_cases hf : err=.TableFull
    · subst hf
      cases h
      exact ⟨fun _ => rfl,fun hn => absurd (hfull.mp rfl) hn⟩
    · refine ⟨fun hm => absurd (Except.error.inj (hfull.mpr hm)) hf,fun _ => ?_⟩
      cases err <;> first | exact absurd rfl hf | (cases h; rfl)
  | ok slot =>
    refine ⟨fun hm => (by cases hfull.mpr hm),fun _ => ?_⟩
    dsimp only at h
    generalize hs.slots slot=o at h
    cases o with
    | none =>
      cases h
      rfl
    | some s =>
      dsimp only at h
      generalize e.sessions.admit (UInt32.ofNat slot) 0 s.sendKey s.recvKey s.handshakeHash out.later=r at h
      obtain ⟨res,sessions⟩ := r
      cases res <;> (cases h; rfl)

end Frame

end Bolina
