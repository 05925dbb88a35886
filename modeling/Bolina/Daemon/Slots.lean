import Bolina.Daemon.Endpoint

namespace Bolina

open Codec Intent State Transport Control BigEndian Noise
open Handshake (Slot processDatagram tHsIdleMs)

/-- The three tables that share the index space of the slots. -/
@[ext] structure Tables where
  hs : Handshake.Table
  sessions : SessionTable
  peerStatic : Slot → Option Key

def Endpoint.tables (e : Endpoint) : Tables := ⟨e.hs,e.sessions,e.peerStatic⟩

/-- What the three tables hold of one slot. -/
inductive Agree : Option Handshake.Session → Option Transport.Session → Option Key → Prop
  | free : Agree none none none
  | held (s : Handshake.Session) (t : Transport.Session) (send : t.send.key=s.sendKey)
      (recv : t.recv.key=s.recvKey) (hash : t.handshakeHash=s.handshakeHash) :
      Agree (some s) (some t) (some s.peerStatic)

theorem Agree.of_free {o : Option Transport.Session} {p : Option Key} (h : Agree none o p) : o=none ∧ p=none := by
  cases h
  exact ⟨rfl,rfl⟩

/-- The tables agree on every slot, and every session in use is one of a slot. -/
structure InStep (t : Tables) : Prop where
  agree : ∀i : Slot,Agree (t.hs.slots i) (t.sessions.lookup (UInt32.ofNat i)) (t.peerStatic i)
  within : ∀idx s,t.sessions.lookup idx=some s → s.localIndex=idx ∧ idx.toNat < Handshake.maxSessions

@[simp] theorem toNat_slot (i : Slot) : (UInt32.ofNat i).toNat=i := by
  have hi : (i : Nat) < 16 := i.isLt
  rw [UInt32.toNat_ofNat',Nat.mod_eq_of_lt (by omega)]

theorem slot_range (i : Slot) : (UInt32.ofNat i).toNat < Transport.maxSessions := by
  have hi : (i : Nat) < 16 := i.isLt
  rw [toNat_slot]
  exact Nat.lt_of_lt_of_le hi (by decide)

theorem slot_inj {i j : Slot} (h : UInt32.ofNat i=UInt32.ofNat j) : i=j := by
  rw [Fin.ext_iff,← toNat_slot i,h,toNat_slot]

section Release

/-- A release touches its slot in all three tables. -/
def Tables.release (t : Tables) (i : Slot) : Tables :=
  ⟨t.hs.releaseSlot i,t.sessions.release (UInt32.ofNat i),Function.update t.peerStatic i none⟩

theorem foldl_release_tables (freed : List Slot) (e : Endpoint) :
    (freed.foldl Endpoint.releaseHsSlot e).tables=freed.foldl Tables.release e.tables := by
  induction freed generalizing e with
  | nil => rfl
  | cons i freed ih => exact ih _

theorem releaseSlot_slots (t : Handshake.Table) (i : Slot) : (t.releaseSlot i).slots=Function.update t.slots i none := by
  rw [Handshake.Table.releaseSlot,dif_pos i.isLt]

/-- What is released is free, and nothing else changes. -/
structure Freed (freed : List Slot) (t t' : Tables) : Prop where
  hs : ∀i,t'.hs.slots i=if i∈freed then none else t.hs.slots i
  peer : ∀i,t'.peerStatic i=if i∈freed then none else t.peerStatic i
  gone : ∀i∈freed,t'.sessions.lookup (UInt32.ofNat i)=none
  kept : ∀idx,(∀i∈freed,idx≠UInt32.ofNat i) → t'.sessions.lookup idx=t.sessions.lookup idx

theorem Freed.stays {freed : List Slot} {t t' : Tables} (h : Freed freed t t') {i : Slot} (hi : i∉freed) :
    t'.sessions.lookup (UInt32.ofNat i)=t.sessions.lookup (UInt32.ofNat i) := by
  apply h.kept
  intro j hj he
  rw [slot_inj he] at hi
  exact hi hj

theorem Freed.release (t : Tables) (i : Slot) : Freed [i] t (t.release i) := by
  constructor
  · intro j
    rw [Tables.release,releaseSlot_slots,Function.update_apply]
    simp only [List.mem_singleton]
  · intro j
    simp only [Tables.release,Function.update_apply,List.mem_singleton]
  · intro j hj
    cases List.mem_singleton.mp hj
    exact lookup_release_self _ _
  · intro idx h
    exact lookup_release_of_ne _ _ _ (h i (List.mem_singleton.mpr rfl))

theorem Freed.trans {xs ys : List Slot} {t u v : Tables} (h : Freed xs t u) (h' : Freed ys u v) :
    Freed (xs++ys) t v := by
  constructor
  · intro i
    rw [h'.hs,h.hs]
    by_cases hy : i∈ys <;> by_cases hx : i∈xs <;> simp [hx,hy]
  · intro i
    rw [h'.peer,h.peer]
    by_cases hy : i∈ys <;> by_cases hx : i∈xs <;> simp [hx,hy]
  · intro i hi
    by_cases hy : i∈ys
    · exact h'.gone i hy
    have hx := (List.mem_append.mp hi).resolve_right hy
    rw [h'.stays hy]
    exact h.gone i hx
  · intro idx hn
    rw [h'.kept idx (fun i hi => hn i (List.mem_append_right xs hi)),
      h.kept idx (fun i hi => hn i (List.mem_append_left ys hi))]

theorem Freed.foldl (freed : List Slot) (t : Tables) : Freed freed t (freed.foldl Tables.release t) := by
  induction freed generalizing t with
  | nil => exact ⟨fun _ => rfl,fun _ => rfl,fun _ h => absurd h List.not_mem_nil,fun _ _ => rfl⟩
  | cons i freed ih => exact (Freed.release t i).trans (ih _)

/-- The sweep frees the stale slots in all three tables. -/
theorem sweep_freed (now : UInt64) (e : Endpoint) :
    Freed (e.releaseStaleSlots now).1 e.tables (e.releaseStaleSlots now).2.tables := by
  have hf := Freed.foldl (e.hs.releaseStale now tHsIdleMs).1 { e.tables with hs := (e.hs.releaseStale now tHsIdleMs).2 }
  have ht : (e.releaseStaleSlots now).2.tables=
      (e.hs.releaseStale now tHsIdleMs).1.foldl Tables.release
        { e.tables with hs := (e.hs.releaseStale now tHsIdleMs).2 } := foldl_release_tables _ _
  rw [ht]
  refine ⟨?_,hf.peer,hf.gone,hf.kept⟩
  intro i
  rw [hf.hs]
  by_cases hs : e.hs.stale now tHsIdleMs i=true
  · have hm : i∈(e.hs.releaseStale now tHsIdleMs).1 := List.mem_filter.mpr ⟨List.mem_finRange i,hs⟩
    rw [if_pos hm]
    exact (if_pos hm).symm
  · simp [Endpoint.releaseStaleSlots,Handshake.Table.releaseStale,Endpoint.tables,hs]

end Release

section Effect

variable {S : Suite} {A : Aead} {keys : Keys}

theorem gate_tables (plain : Bytes) (e : Endpoint) : (e.gate S plain).2.tables=e.tables := by
  simp only [Endpoint.gate]
  repeat' split
  all_goals rfl

theorem handleEnvelope_tables {io : Io} {now : UInt64} {plain : Bytes} {e e' : Endpoint}
    (h : e.handleEnvelope S io now plain=some e') : e'.tables=e.tables := by
  rw [Endpoint.handleEnvelope] at h
  have hg := @gate_tables S plain e
  cases hc : e.gate S plain with
  | mk b g =>
    rw [hc] at h hg
    cases b with
    | false =>
      cases h
      exact hg
    | true =>
      obtain ⟨dd,_,rfl⟩ := Option.map_eq_some_iff.mp h
      exact hg

/-- What `bind_session` was asked when it answered well. -/
structure Verified (S : Suite) (keys : Keys) (peerStatic : Slot → Option Key) (slot : UInt32) (hash : Key)
    (call : BindCall) : Prop where
  hash : call.handshakeHash=hash
  peer : ∃i : Slot,(i : Nat)=slot.toNat ∧ peerStatic i=some call.peerStatic
  ok : bindSession S.toCrypto call.cert call.bindSig call.handshakeHash.toList call.peerStatic.toList keys.caPubs
    call.nowMs=.ok ()

/-- The sender key and the certificate that a binding message stores. -/
def Endpoint.stores (S : Suite) (keys : Keys) (now : UInt64) (plain : Bytes) (hash : Key) (slot : UInt32)
    (e : Endpoint) : Option (Bytes × Bytes) :=
  if plain.length < 2+lenBindingSig ∨ plain.length < 2+beNat (plain.take 2)+lenBindingSig then none
  else
    match parseCert (boundCert plain) with
    | .error _ => none
    | .ok cert =>
      if h : slot.toNat < Handshake.maxSessions then
        match e.peerStatic ⟨slot.toNat,h⟩ with
        | none => none
        | some peer =>
          match bindSession S.toCrypto (certView cert) ((plain.drop (2+beNat (plain.take 2))).take lenBindingSig)
              hash.toList peer.toList keys.caPubs now with
          | .error _ => none
          | .ok _ => some (cert.sigPubkey,boundCert plain)
      else none

/-- Every way a binding message is answered. -/
inductive BindingEnds (S : Suite) (keys : Keys) (now : UInt64) (plain : Bytes) (hash : Key) (slot idx : UInt32)
    (e : Endpoint) : Endpoint → List Act → Prop
  | refused (none : e.stores S keys now plain hash slot=none) :
      BindingEnds S keys now plain hash slot idx e (e.reject .Binding) []
  | silent (none : e.stores S keys now plain hash slot=none) : BindingEnds S keys now plain hash slot idx e e []
  | binds (cert : Cert) (i : Slot) (peer : Key) (sig : Bytes) (parses : parseCert (boundCert plain)=.ok cert)
      (named : (i : Nat)=slot.toNat) (known : e.peerStatic i=some peer)
      (ok : bindSession S.toCrypto (certView cert) sig hash.toList peer.toList keys.caPubs now=.ok ())
      (stored : e.stores S keys now plain hash slot=some (cert.sigPubkey,boundCert plain)) :
      BindingEnds S keys now plain hash slot idx e
        { e.setBound idx with daemon := { (e.setBound idx).daemon with
            certs := (e.setBound idx).daemon.certs++[(cert.sigPubkey,boundCert plain)] } }
        [.bound ⟨idx,certView cert,sig,hash,peer,now⟩]

theorem handleBinding_ends {now : UInt64} {plain : Bytes} {hash : Key} {slot idx : UInt32} {e e' : Endpoint}
    {acts : List Act} (h : e.handleBinding S keys now plain hash slot idx=some (e',acts)) :
    BindingEnds S keys now plain hash slot idx e e' acts := by
  have hstores := Endpoint.stores.eq_def S keys now plain hash slot e
  rw [Endpoint.handleBinding] at h
  by_cases hl : plain.length < 2+lenBindingSig
  · rw [if_pos hl] at h
    rw [if_pos (Or.inl hl)] at hstores
    cases h
    exact .refused hstores
  rw [if_neg hl] at h
  dsimp only at h
  by_cases hc : plain.length < 2+beNat (plain.take 2)+lenBindingSig
  · rw [if_pos hc] at h
    rw [if_pos (Or.inr hc)] at hstores
    cases h
    exact .refused hstores
  rw [if_neg hc] at h
  rw [if_neg (not_or.mpr ⟨hl,hc⟩)] at hstores
  change (match parseCert (boundCert plain) with | .error _ => _ | .ok cert => _)=_ at h
  cases hp : parseCert (boundCert plain) with
  | error _ =>
    rw [hp] at h hstores
    cases h
    exact .refused hstores
  | ok cert =>
    rw [hp] at h hstores
    dsimp only at h hstores
    by_cases hs : slot.toNat < Handshake.maxSessions
    · rw [dif_pos hs] at h hstores
      cases hk : e.peerStatic ⟨slot.toNat,hs⟩ with
      | none =>
        rw [hk] at h hstores
        cases h
        exact .silent hstores
      | some peer =>
        rw [hk] at h hstores
        dsimp only at h hstores
        cases hb : bindSession S.toCrypto (certView cert)
            ((plain.drop (2+beNat (plain.take 2))).take lenBindingSig) hash.toList peer.toList keys.caPubs now with
        | error _ =>
          rw [hb] at h hstores
          cases h
          exact .refused hstores
        | ok u =>
          rw [hb] at h hstores
          cases h
          exact .binds cert ⟨slot.toNat,hs⟩ peer _ hp rfl hk hb hstores
    · rw [dif_neg hs] at h
      cases h

/-- A binding message is refused without a trace in the tables, or it is verified and
sets the flag of its session. -/
theorem handleBinding_cases {now : UInt64} {plain : Bytes} {hash : Key} {slot idx : UInt32} {e e' : Endpoint}
    {acts : List Act} (h : BindingEnds S keys now plain hash slot idx e e' acts) :
    (e'.tables=e.tables ∧ acts=[]) ∨
      ∃call,Verified S keys e.peerStatic slot hash call ∧ call.index=idx ∧ e'.tables=(e.setBound idx).tables ∧
        acts=[.bound call] := by
  cases h with
  | refused => exact .inl ⟨rfl,rfl⟩
  | silent => exact .inl ⟨rfl,rfl⟩
  | binds cert i peer sig parses named known ok =>
    exact .inr ⟨⟨idx,certView cert,sig,hash,peer,now⟩,⟨rfl,⟨i,named,known⟩,ok⟩,rfl,rfl,rfl⟩

theorem open_window (A : Aead) (s : Transport.Session) (packet out : Bytes) (c : UInt64) :
    ∃res recv,s.open A packet c out=(res,{ s with recv }) ∧ recv.key=s.recv.key := by
  obtain ⟨hframe,hkey⟩ := Session.open_frame A s packet out c
  exact ⟨_,_,Prod.ext rfl hframe,hkey⟩

/-- The session a datagram opens on, as it was before, and the plaintext. -/
def Endpoint.opens (A : Aead) (pkt : Bytes) (e : Endpoint) : Option (Transport.Session × Bytes) :=
  if pkt.length < headerSize+16 then none
  else
    match e.sessions.lookup (be32 (slice pkt 4 4)) with
    | none => none
    | some s =>
      match s.open A pkt (headerCounter pkt) ptBuf with
      | (.error _,_) => none
      | (.ok (n,pt),_) => some (s,pt.take n)

/-- Every way a datagram of a session is answered. -/
inductive TransportEnds (S : Suite) (A : Aead) (keys : Keys) (out : Outside) (pkt : Bytes) (e : Endpoint) :
    Endpoint → List Act → Prop
  | ignored (none : e.opens A pkt=none) : TransportEnds S A keys out pkt e e []
  | closed (s : Transport.Session) (recv : RecvState) (none : e.opens A pkt=none)
      (found : e.sessions.lookup (be32 (slice pkt 4 4))=some s) (key : recv.key=s.recv.key) :
      TransportEnds S A keys out pkt e
        ({ e with sessions := e.sessions.put (be32 (slice pkt 4 4)) { s with recv } }.reject .Transport) []
  | envelope (s : Transport.Session) (recv : RecvState) (plain : Bytes) (e' : Endpoint)
      (opens : e.opens A pkt=some (s,plain)) (found : e.sessions.lookup (be32 (slice pkt 4 4))=some s)
      (key : recv.key=s.recv.key) (bound : s.bound=true)
      (handled : { e with sessions := e.sessions.put (be32 (slice pkt 4 4)) { s with recv } }.handleEnvelope S out.io
        out.now plain=some e') :
      TransportEnds S A keys out pkt e e' [.opened (be32 (slice pkt 4 4))]
  | binding (s : Transport.Session) (recv : RecvState) (plain : Bytes) (e' : Endpoint) (acts : List Act)
      (opens : e.opens A pkt=some (s,plain)) (found : e.sessions.lookup (be32 (slice pkt 4 4))=some s)
      (key : recv.key=s.recv.key) (unbound : s.bound=false)
      (ends : BindingEnds S keys out.now plain s.handshakeHash s.localIndex (be32 (slice pkt 4 4))
        { e with sessions := e.sessions.put (be32 (slice pkt 4 4)) { s with recv } } e' acts) :
      TransportEnds S A keys out pkt e e' (.opened (be32 (slice pkt 4 4))::acts)

theorem handleTransport_ends {out : Outside} {pkt : Bytes} {e e' : Endpoint} {acts : List Act}
    (h : e.handleTransport S A keys out pkt=some (e',acts)) : TransportEnds S A keys out pkt e e' acts := by
  have hopens := Endpoint.opens.eq_def A pkt e
  rw [Endpoint.handleTransport] at h
  by_cases hl : pkt.length < headerSize+16
  · rw [if_pos hl] at h hopens
    cases h
    exact .ignored hopens
  rw [if_neg hl] at h hopens
  dsimp only at h
  cases hf : e.sessions.lookup (be32 (slice pkt 4 4)) with
  | none =>
    rw [hf] at h hopens
    cases h
    exact .ignored hopens
  | some s =>
    rw [hf] at h hopens
    dsimp only at h hopens
    obtain ⟨res,recv,ho,hkey⟩ := open_window A s pkt ptBuf (headerCounter pkt)
    rw [ho] at h hopens
    cases res with
    | error _ =>
      cases h
      exact .closed s recv hopens hf hkey
    | ok r =>
      dsimp only at h hopens
      by_cases hb : s.bound=true
      · rw [if_pos hb] at h
        obtain ⟨e₁,he,heq⟩ := Option.map_eq_some_iff.mp h
        cases heq
        exact .envelope s recv _ _ hopens hf hkey hb he
      · rw [if_neg hb] at h
        obtain ⟨⟨e₁,acts₁⟩,he,heq⟩ := Option.map_eq_some_iff.mp h
        cases heq
        exact .binding s recv _ _ acts₁ hopens hf hkey (Bool.eq_false_of_not_eq_true hb) (handleBinding_ends he)

/-- Everything a step can do to the three tables, with the acts it shows. -/
inductive Effect (S : Suite) (keys : Keys) (t : Tables) (x : Input) : Tables → List Act → Prop
  | idle (sent : List Bytes) : Effect S keys t x t (sent.map .sent)
  | opens (idx : UInt32) (s : Transport.Session) (recv : RecvState) (acts : List Act)
      (found : t.sessions.lookup idx=some s) (key : recv.key=s.recv.key) (shown : acts=[] ∨ acts=[.opened idx]) :
      Effect S keys t x { t with sessions := t.sessions.put idx { s with recv } } acts
  | binds (s : Transport.Session) (recv : RecvState) (call : BindCall)
      (found : t.sessions.lookup call.index=some s) (key : recv.key=s.recv.key)
      (verified : Verified S keys t.peerStatic s.localIndex s.handshakeHash call) :
      Effect S keys t x { t with sessions := t.sessions.put call.index { s with recv,bound := true } }
        [.opened call.index,.bound call]
  | commits (i : Slot) (s : Handshake.Session) (later : UInt64) (out : Bytes)
      (free : t.hs.slots i=none) (created : s.createdMs=x.now) :
      Effect S keys t x
        ⟨⟨Function.update t.hs.slots i (some s)⟩,
          t.sessions.put (UInt32.ofNat i)
            (admittedSession (UInt32.ofNat i) 0 s.sendKey s.recvKey s.handshakeHash later),
          Function.update t.peerStatic i (some s.peerStatic)⟩
        [.sent out,.committed i]
  | sweeps (now : UInt64) (t' : Tables) (freed : List Slot) (swept : x=.sweep now)
      (stale : ∀i,i∈freed ↔ t.hs.stale now tHsIdleMs i=true) (frees : Freed freed t t') :
      Effect S keys t x t' (freed.map .released)

theorem put_put (t : SessionTable) (idx : UInt32) (a b : Transport.Session) : (t.put idx a).put idx b=t.put idx b := by
  rw [SessionTable.put,SessionTable.put,SessionTable.put]
  by_cases hi : idx.toNat < Transport.maxSessions
  · simp only [dif_pos hi,Function.update_idem]
  · simp only [dif_neg hi]

theorem setBound_tables (e : Endpoint) (idx : UInt32) (s : Transport.Session) (h : e.sessions.lookup idx=some s) :
    (e.setBound idx).tables={ e.tables with sessions := e.sessions.put idx { s with bound := true } } := by
  rw [Endpoint.setBound,h]
  rfl

theorem handleTransport_effect {out : Outside} {pkt plain : Bytes} {e e' : Endpoint} {acts : List Act}
    (h : e.handleTransport S A keys out pkt=some (e',acts)) :
    Effect S keys e.tables (.datagram plain out) e'.tables acts := by
  have hopens := fun s recv acts hf hkey =>
    @Effect.opens S keys e.tables (.datagram plain out) (be32 (slice pkt 4 4)) s recv acts hf hkey
  cases handleTransport_ends h with
  | ignored => exact .idle []
  | closed s recv none found key => exact hopens s recv [] found key (.inl rfl)
  | envelope s recv plain e' opens found key bound handled =>
    rw [handleEnvelope_tables handled]
    exact hopens s recv _ found key (.inr rfl)
  | binding s recv plain e' acts opens found key unbound ends =>
    rcases handleBinding_cases ends with ⟨ht,ha⟩ | ⟨call,hv,hi,ht,ha⟩
    · rw [ha,ht]
      exact hopens s recv _ found key (.inr rfl)
    · have hput : (e.sessions.put call.index { s with recv }).lookup call.index=some { s with recv } := by
        rw [hi,lookup_put_self _ _ _ (lookup_range _ _ _ found)]
        exact if_pos (lookup_inUse _ _ _ found)
      rw [← hi] at found ht ⊢
      rw [ha,ht,setBound_tables _ _ _ hput,put_put]
      exact .binds s recv call found key hv

theorem handleHandshake_effect {out : Outside} {pkt plain : Bytes} {e e' : Endpoint} {acts : List Act}
    (hi : InStep e.tables) (h : e.handleHandshake S keys out pkt=some (e',acts)) :
    Effect S keys e.tables (.datagram plain out) e'.tables acts := by
  rw [Endpoint.handleHandshake] at h
  obtain ⟨res,hs,sent,hp,hcase⟩ := Handshake.processed S e.hs pkt keys.secretStatic keys.sigPub out.ephSecret
    out.send out.now
  rw [hp] at h
  cases hcase with
  | fails err _ _ hf =>
    have hidle := @Effect.idle S keys e.tables (.datagram plain out) sent
    cases hf.table
    cases err <;> (cases h; exact hidle)
  | commits i _ _ info r₁ r₂ msg hc =>
    have hfree : e.sessions.lookup (UInt32.ofNat i)=none := by
      have ha : Agree (e.hs.slots i) (e.sessions.lookup (UInt32.ofNat i)) (e.peerStatic i) := hi.agree i
      rw [hc.free] at ha
      exact ha.of_free.1
    have hslots : hs=⟨Function.update e.hs.slots i
        (some ⟨(r₂.finalize S).sendKey,(r₂.finalize S).recvKey,(r₂.finalize S).handshakeHash,
          info.initiatorStaticPub,out.now⟩)⟩ := by
      ext1
      funext j
      dsimp only
      rw [Function.update_apply]
      by_cases hj : j=i
      · rw [if_pos hj,hj,hc.holds]
      · rw [if_neg hj,hc.others j hj]
    dsimp only at h
    rw [hc.holds] at h
    dsimp only at h
    rw [ admit_of_free _ _ _ _ _ _ _ (slot_range i) hfree,hc.sentOnce] at h
    cases h
    rw [hslots]
    exact .commits i _ out.later msg hc.free rfl

/-- Where the tables agree, a step has one of the effects. -/
theorem step_effect {x : Input} {e e' : Endpoint} {acts : List Act} (hi : InStep e.tables)
    (h : e.step S A keys x=some (e',acts)) : Effect S keys e.tables x e'.tables acts := by
  cases x with
  | sweep now =>
    cases h
    refine .sweeps now _ _ rfl ?_ (sweep_freed now e)
    intro i
    simp [Endpoint.releaseStaleSlots,Handshake.Table.releaseStale,Endpoint.tables]
  | datagram pkt out =>
    change e.handleDatagram S A keys out pkt=some (e',acts) at h
    cases pkt with
    | nil =>
      cases h
      exact .idle []
    | cons b rest =>
      rw [Endpoint.handleDatagram.eq_def] at h
      dsimp only at h
      by_cases h1 : b=1
      · rw [if_pos h1] at h
        exact handleHandshake_effect hi h
      rw [if_neg h1] at h
      by_cases h4 : b=4
      · rw [if_pos h4] at h
        exact handleTransport_effect h
      · rw [if_neg h4] at h
        cases h
        exact .idle []

end Effect

section Invariant

/-- Writing a session back under the same keys keeps the tables in step. -/
theorem InStep.put {t : Tables} (h : InStep t) {idx : UInt32} {s s' : Transport.Session}
    (hf : t.sessions.lookup idx=some s) (huse : s'.inUse=s.inUse) (hidx : s'.localIndex=s.localIndex)
    (hsend : s'.send=s.send) (hrecv : s'.recv.key=s.recv.key) (hhash : s'.handshakeHash=s.handshakeHash) :
    InStep { t with sessions := t.sessions.put idx s' } := by
  have hself : (t.sessions.put idx s').lookup idx=some s' := by
    rw [lookup_put_self _ _ _ (lookup_range _ _ _ hf),huse]
    exact if_pos (lookup_inUse _ _ _ hf)
  constructor
  · intro i
    have ha := h.agree i
    by_cases hi : UInt32.ofNat i=idx
    · dsimp only
      rw [hi,hself]
      rw [hi,hf] at ha
      generalize t.hs.slots i=o,t.peerStatic i=p at ha ⊢
      cases ha with
      | held a _ h1 h2 h3 => exact .held a s' (hsend ▸ h1) (hrecv.trans h2) (hhash.trans h3)
    · dsimp only
      rw [lookup_put_of_ne _ _ _ _ hi]
      exact ha
  · intro j r hr
    by_cases hj : j=idx
    · dsimp only at hr
      rw [hj,hself] at hr
      cases hr
      rw [hj,hidx]
      exact h.within idx s hf
    · dsimp only at hr
      rw [lookup_put_of_ne _ _ _ _ hj] at hr
      exact h.within j r hr

theorem InStep.commit {t : Tables} (h : InStep t) (i : Slot) (s : Handshake.Session) (later : UInt64) :
    InStep ⟨⟨Function.update t.hs.slots i (some s)⟩,
      t.sessions.put (UInt32.ofNat i) (admittedSession (UInt32.ofNat i) 0 s.sendKey s.recvKey s.handshakeHash later),
      Function.update t.peerStatic i (some s.peerStatic)⟩ := by
  have hself := lookup_put_self t.sessions (UInt32.ofNat i)
    (admittedSession (UInt32.ofNat i) 0 s.sendKey s.recvKey s.handshakeHash later) (slot_range i)
  rw [if_pos (show (admittedSession (UInt32.ofNat i) 0 s.sendKey s.recvKey s.handshakeHash later).inUse=true from rfl)] at hself
  constructor
  · intro j
    dsimp only
    by_cases hj : j=i
    · rw [hj,Function.update_self,Function.update_self,hself]
      exact .held s _ rfl rfl rfl
    · rw [Function.update_of_ne hj,Function.update_of_ne hj,
        lookup_put_of_ne _ _ _ _ (fun he => hj (slot_inj he))]
      exact h.agree j
  · intro idx r hr
    dsimp only at hr
    by_cases hidx : idx=UInt32.ofNat i
    · rw [hidx,hself] at hr
      cases hr
      rw [hidx]
      exact ⟨rfl,(toNat_slot i).symm ▸ i.isLt⟩
    · rw [lookup_put_of_ne _ _ _ _ hidx] at hr
      exact h.within idx r hr

theorem InStep.freed {t t' : Tables} (h : InStep t) {freed : List Slot} (hf : Freed freed t t') : InStep t' := by
  constructor
  · intro i
    rw [hf.hs,hf.peer]
    by_cases hi : i∈freed
    · rw [if_pos hi,if_pos hi,hf.gone i hi]
      exact .free
    · rw [if_neg hi,if_neg hi,hf.stays hi]
      exact h.agree i
  · intro idx s hs
    by_cases hi : ∃i∈freed,idx=UInt32.ofNat i
    · obtain ⟨i,hi,rfl⟩ := hi
      rw [hf.gone i hi] at hs
      cases hs
    · rw [hf.kept idx (fun i him he => hi ⟨i,him,he⟩)] at hs
      exact h.within idx s hs

variable {S : Suite} {A : Aead} {keys : Keys}

/-- Every effect keeps the tables in step. -/
theorem Effect.inStep {t t' : Tables} {x : Input} {acts : List Act} (hi : InStep t)
    (h : Effect S keys t x t' acts) : InStep t' := by
  cases h with
  | idle sent => exact hi
  | opens idx s recv acts found key shown => exact hi.put found rfl rfl rfl key rfl
  | binds s recv call found key verified => exact hi.put found rfl rfl rfl key rfl
  | commits i s later out free created => exact hi.commit i s later
  | sweeps now _ freed swept stale frees => exact hi.freed frees

theorem inStep_boot (S : Suite) (keys : Keys) (resolver : Resolver) (ledger : Option GrantLedger) (disk : Disk) :
    InStep (Endpoint.boot S keys resolver ledger disk).tables := by
  constructor
  · intro i
    have hl : (Endpoint.boot S keys resolver ledger disk).tables.sessions.lookup (UInt32.ofNat i)=none := lookup_new _
    rw [hl]
    exact .free
  · intro idx s hs
    have hl : (Endpoint.boot S keys resolver ledger disk).tables.sessions.lookup idx=none := lookup_new _
    rw [hl] at hs
    cases hs

theorem inStep_run {e : Endpoint} {log : Log} {resolver : Resolver} {ledger : Option GrantLedger} {disk : Disk}
    (xs : List Input) (h : runFrom S A keys (Endpoint.boot S keys resolver ledger disk) xs=some (e,log)) :
    InStep e.tables :=
  runFrom_invariant xs (inStep_boot S keys resolver ledger disk)
    (fun _ _ _ _ _ hi hs => (step_effect hi hs).inStep hi) e log h

end Invariant

/-- What is asked of one slot: occupied in all three tables or in none, and then
under the same keys, the same hash and the same peer. -/
structure SlotAgrees (e : Endpoint) (i : Slot) : Prop where
  session : (e.hs.slots i).isSome ↔ (e.sessions.lookup (UInt32.ofNat i)).isSome
  peer : (e.sessions.lookup (UInt32.ofNat i)).isSome ↔ (e.peerStatic i).isSome
  same : ∀s,e.hs.slots i=some s → ∃t,e.sessions.lookup (UInt32.ofNat i)=some t ∧ t.send.key=s.sendKey ∧
    t.recv.key=s.recvKey ∧ t.handshakeHash=s.handshakeHash ∧ e.peerStatic i=some s.peerStatic

/-- In every state a run reaches, the three tables agree on every slot. -/
theorem slots_agree (S : Suite) (A : Aead) (keys : Keys) (resolver : Resolver) (ledger : Option GrantLedger)
    (disk : Disk) (xs : List Input) :
    ∀e log,runFrom S A keys (Endpoint.boot S keys resolver ledger disk) xs=some (e,log) → ∀i,SlotAgrees e i := by
  intro e log h i
  have ha : Agree (e.hs.slots i) (e.sessions.lookup (UInt32.ofNat i)) (e.peerStatic i) := (inStep_run xs h).agree i
  generalize ho : e.hs.slots i=o,hp : e.sessions.lookup (UInt32.ofNat i)=p,hq : e.peerStatic i=q at ha
  cases ha with
  | free =>
    constructor
    · rw [ho,hp]
      rfl
    · rw [hp,hq]
      rfl
    · intro s hs
      rw [ho] at hs
      cases hs
  | held s t h1 h2 h3 =>
    constructor
    · rw [ho,hp]
      rfl
    · rw [hp,hq]
      rfl
    · intro s' hs
      rw [ho] at hs
      cases hs
      exact ⟨t,hp,h1,h2,h3,hq⟩

section Exchange

variable {S : Suite} {A : Aead} {keys : Keys} {e : Endpoint} {out : Outside} {pkt : Bytes}

theorem handleDatagram_first (h : pkt.head?=some 1) :
    e.handleDatagram S A keys out pkt=e.handleHandshake S keys out pkt := by
  cases pkt with
  | nil => cases h
  | cons b rest =>
    cases h
    rfl

theorem handleDatagram_transport (h : pkt.head?=some 4) :
    e.handleDatagram S A keys out pkt=e.handleTransport S A keys out pkt := by
  cases pkt with
  | nil => cases h
  | cons b rest =>
    cases h
    rfl

/-- The endpoint that has taken a session in. -/
def Endpoint.commit (e : Endpoint) (i : Slot) (s : Handshake.Session) (later : UInt64) : Endpoint :=
  { e with
    hs := ⟨Function.update e.hs.slots i (some s)⟩
    sessions := e.sessions.put (UInt32.ofNat i)
      (admittedSession (UInt32.ofNat i) 0 s.sendKey s.recvKey s.handshakeHash later)
    peerStatic := Function.update e.peerStatic i (some s.peerStatic) }

/-- A first message that the initiator wrote is answered and its session taken in. -/
theorem step_sent (hi : InStep e.tables) (hS : S.Laws) {si ei : Key} {index : UInt32} {ts : UInt64} {cookie : Mac}
    {i : Slot} (hn : Handshake.NonzeroSecrets S si keys.secretStatic ei out.ephSecret) (hp : e.hs.position=some i)
    (hsend : out.send (sentMsg2 S si keys.secretStatic ei out.ephSecret keys.sigPub index (UInt32.ofNat i) ts
      Handshake.zeroCookie)=true) :
    e.step S A keys (.datagram (sentMsg1 S si keys.secretStatic ei keys.sigPub index ts cookie) out)=
      some (e.commit i (Handshake.agreed S si keys.secretStatic ei out.ephSecret ts out.now) out.later,
        [.sent (sentMsg2 S si keys.secretStatic ei out.ephSecret keys.sigPub index (UInt32.ofNat i) ts
          Handshake.zeroCookie),.committed i]) := by
  have hfree : e.sessions.lookup (UInt32.ofNat i)=none := by
    have ha : Agree (e.hs.slots i) (e.sessions.lookup (UInt32.ofNat i)) (e.peerStatic i) := hi.agree i
    rw [Handshake.position_free _ _ hp] at ha
    exact ha.of_free.1
  rw [Endpoint.step,handleDatagram_first (sentMsg1_fields S si keys.secretStatic ei keys.sigPub index ts cookie hS).kind,
    Endpoint.handleHandshake,
    Handshake.processDatagram_sent S si keys.secretStatic ei out.ephSecret keys.sigPub index ts cookie e.hs i out.send
      out.now hS hn hp hsend]
  simp only [Function.update_self]
  rw [ admit_of_free _ _ _ _ _ _ _ (slot_range i) hfree]
  rfl

end Exchange

section Sample

def responderKeys : Keys := ⟨responderSecret,responderSig,[]⟩

def bootedEndpoint : Endpoint :=
  Endpoint.boot sampleSuite responderKeys (Resolver.new sampleSuite.toCrypto responderSig.toList) none ⟨[],none,[]⟩

/-- A first message that opens an exchange with the sample responder. -/
def sampleInitiation (index : UInt32) : Bytes :=
  sentMsg1 sampleSuite initiatorSecret responderSecret initiatorEph responderSig index 1700000000000 (fixed 16 [])

def sampleOutside (now : UInt64) : Outside := ⟨now,now,responderEph,fun _ => true,Io.good⟩

theorem sample_inStep : InStep bootedEndpoint.tables :=
  inStep_boot sampleSuite responderKeys (Resolver.new sampleSuite.toCrypto responderSig.toList) none ⟨[],none,[]⟩

theorem sample_nonzero : Handshake.NonzeroSecrets sampleSuite initiatorSecret responderSecret initiatorEph responderEph :=
  ⟨by decide +kernel,by decide +kernel,by decide +kernel,by decide +kernel⟩

/-- The endpoint that has taken the sample initiator in. -/
def engagedEndpoint (now : UInt64) : Endpoint :=
  bootedEndpoint.commit 0 (Handshake.agreed sampleSuite initiatorSecret responderSecret initiatorEph responderEph
    1700000000000 now) now

def sampleAnswer (index : UInt32) : Bytes :=
  sentMsg2 sampleSuite initiatorSecret responderSecret initiatorEph responderEph responderSig index 0 1700000000000
    Handshake.zeroCookie

theorem sample_step (index : UInt32) (now : UInt64) :
    bootedEndpoint.step sampleSuite chachaPoly responderKeys (.datagram (sampleInitiation index) (sampleOutside now))=
      some (engagedEndpoint now,[.sent (sampleAnswer index),.committed 0]) :=
  @step_sent sampleSuite chachaPoly responderKeys bootedEndpoint (sampleOutside now) sample_inStep sampleSuite_laws
    initiatorSecret initiatorEph index 1700000000000 (fixed 16 []) 0 sample_nonzero (by decide +kernel) rfl

theorem sample_run (index : UInt32) (now : UInt64) :
    runFrom sampleSuite chachaPoly responderKeys bootedEndpoint [.datagram (sampleInitiation index) (sampleOutside now)]=
      some (engagedEndpoint now,[(now,.committed 0),(now,.sent (sampleAnswer index))]) :=
  @runFrom_snoc sampleSuite chachaPoly responderKeys bootedEndpoint _ _ [] _ [] _ rfl (sample_step index now)

/-- Slot 0 is taken in all three tables. -/
theorem slots_agree_sample : ((engagedEndpoint 0).hs.slots 0).isSome=true ∧ ∀i,SlotAgrees (engagedEndpoint 0) i :=
  ⟨rfl,slots_agree sampleSuite chachaPoly responderKeys (Resolver.new sampleSuite.toCrypto responderSig.toList) none
    ⟨[],none,[]⟩ _ _ _ (sample_run 7 0)⟩

end Sample

end Bolina
