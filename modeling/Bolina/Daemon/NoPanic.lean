import Bolina.Daemon.CheckedEndpoint
import Bolina.Daemon.RenewedCert

namespace Bolina

open Control Noise State Transport
open Checked (Fits InPlace Slice TagLast sliceLimit)

section Kept

variable {S : Suite} {A : Aead} {keys : Keys} {s s' : Service} {x : Event}

/-- The resources move by a declaration alone. -/
theorem event_fits (hf : Fits s.endpoint.daemon.resolver) (h : s.step S A keys x=some s') :
    Fits s'.endpoint.daemon.resolver := by
  cases x with
  | input y =>
    obtain ⟨⟨e',acts⟩,he,heq⟩ := Option.map_eq_some_iff.mp h
    cases heq
    rw [(step_binding he).2]
    exact hf
  | post body now =>
    cases h
    exact hf
  | addResource canonical =>
    cases h
    exact hf.add canonical
  | attachLedger io =>
    cases h
    rw [Service.attachLedger,Daemon.attachLedger]
    generalize GrantLedger.open io s.endpoint.disk=r
    obtain ⟨res,disk⟩ := r
    cases res <;> exact hf

/-- What an event stores has been parsed, and so has a length. -/
theorem event_certs (hc : ∀kw∈s.endpoint.daemon.certs,kw.2.length < sliceLimit) (h : s.step S A keys x=some s') :
    ∀kw∈s'.endpoint.daemon.certs,kw.2.length < sliceLimit := by
  intro kw hkw
  rw [event_binding h] at hkw
  obtain hold|hnew := List.mem_append.mp hkw
  · exact hc kw hold
  · obtain ⟨cert,hp,-⟩ := binding_parses (Option.mem_toList.mp hnew)
    exact Checked.parsedCert_length hp

/-- What every event keeps of a daemon: its tables in step, its resources and its
certificates within their bounds. -/
structure Bounded (s : Service) : Prop where
  tables : InStep s.endpoint.tables
  resources : Fits s.endpoint.daemon.resolver
  certs : ∀kw∈s.endpoint.daemon.certs,kw.2.length < sliceLimit

theorem Bounded.step (hb : Bounded s) (h : s.step S A keys x=some s') : Bounded s' where
  tables := service_inStep hb.tables h
  resources := event_fits hb.resources h
  certs := event_certs hb.certs h

theorem bounded_new (S : Suite) (keys : Keys) (disk : Disk) : Bounded (Service.new S keys disk) where
  tables := inStep_boot S keys _ none disk
  resources := Checked.fits_new S.toCrypto keys.sigPub.toList
  certs _ h := by cases h

theorem Bounded.ready (hb : Bounded s) (h : Checked.HasRoom s.endpoint) : Checked.Ready s.endpoint := ⟨hb.resources,hb.certs,h⟩

end Kept

/-- In every state a daemon reaches, every datagram is handled to its end: no index, slice,
copy, unwrap or sum on its way leaves its range. -/
theorem datagram_returns (S : Suite) (A : Aead) (hS : InPlace S) (hA : TagLast A) (keys : Keys) (ownCert : Slice)
    (disk : Disk) (xs : List Event) (s : Service)
    (hs : xs.foldl (serve S A keys) (some (Service.new S keys disk))=some s) (hroom : Checked.HasRoom s.endpoint)
    (out : Outside) (hnow : out.now.toNat < 2^63) (pkt : Bytes) :
    ∃r,Checked.handleDatagram S A keys ownCert out pkt s.endpoint=some r ∧
      s.endpoint.handleDatagram S A keys out pkt=some r := by
  have hb : Bounded s :=
    served_invariant xs (bounded_new S keys disk) (fun _ _ _ hb h => hb.step h) s hs
  exact Checked.handleDatagram_returns hS hA (hb.ready hroom) hb.tables hnow pkt

section Sample

theorem sampleSuite_inPlace : InPlace sampleSuite where
  encrypts _ _ _ pt := Ciphers.xorStream_length _ _ pt
  decrypts key n ad ct tag pt h := by
    simp only [sampleSuite] at h
    split at h
    · cases h
      exact Ciphers.xorStream_length _ _ ct
    · cases h

/-- The tag is the last sixteen bytes. -/
theorem chachaPoly_tagLast : TagLast chachaPoly := by
  intro key n ct ad pt h
  simp only [chachaPoly,Ciphers.openBytes] at h
  split at h
  · rename_i htag
    cases h
    have hl := congrArg List.length htag
    rw [List.length_drop,Ciphers.tag_length] at hl
    rw [Ciphers.xorStream_length,List.length_take]
    omega
  · cases h

theorem sample_served : [Event.input (.datagram (sampleInitiation 7) (sampleOutside 0))].foldl
    (serve sampleSuite chachaPoly responderKeys) (some sampleService)=some ⟨engagedEndpoint 0,⟨0⟩⟩ := by
  have hs : serve sampleSuite chachaPoly responderKeys (some sampleService)
    (.input (.datagram (sampleInitiation 7) (sampleOutside 0)))=some ⟨engagedEndpoint 0,⟨0⟩⟩ := serve_input (sample_step 7 0)
  rw [List.foldl_cons,hs,List.foldl_nil]

theorem engaged_hasRoom : Checked.HasRoom (engagedEndpoint 0) where
  daemon := ⟨by decide,fun i => by decide +revert,by decide,by decide⟩
  inserts := by decide
  storefull := by decide

/-- A daemon with a session in a slot takes a datagram that names the session but is no
message of it. -/
theorem datagram_returns_sample :
    ∃r,Checked.handleDatagram sampleSuite chachaPoly responderKeys ⟨[],by decide⟩ (sampleOutside 0)
        (4::List.replicate 63 0) (engagedEndpoint 0)=some r ∧
      (engagedEndpoint 0).handleDatagram sampleSuite chachaPoly responderKeys (sampleOutside 0) (4::List.replicate 63 0)=
        some r :=
  datagram_returns sampleSuite chachaPoly sampleSuite_inPlace chachaPoly_tagLast responderKeys ⟨[],by decide⟩ ⟨[],none,[]⟩
    _ ⟨engagedEndpoint 0,⟨0⟩⟩ sample_served engaged_hasRoom (sampleOutside 0) (by decide) (4::List.replicate 63 0)

end Sample

end Bolina
