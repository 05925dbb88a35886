import Bolina.Transport.SessionReplay

namespace Bolina.Transport

open BigEndian GuardedRun SlidingWindow

/-- What is relied on of the AEAD: a tag of 16 bytes, decryption that undoes encryption,
and encryption that does not fail on what fits a datagram. -/
structure Aead.Correct (A : Aead) : Prop where
  tagLength : A.TagLength
  decrypts : ∀k n m a ct,A.encrypt k n m a=some ct → A.decrypt k n ct a=some m
  encrypts : ∀k n m a,n.length=12 → m.length ≤ 4096 → (A.encrypt k n m a).isSome

/-- The packets of a sequence of `seal` calls, each with the plaintext in it. -/
def sealedPairs (A : Aead) : Session → List (Bytes × Bytes) → List (Bytes × Bytes)
  | _,[] => []
  | s,(out,pt)::ms =>
    match s.seal A out pt with
    | (.error _,s') => sealedPairs A s' ms
    | (.ok (total,buf),s') => (buf.take total,pt)::sealedPairs A s' ms

/-- A packet that arrives, the plaintext in it and the buffer it is opened into. -/
structure Parcel where
  packet : Bytes
  plain : Bytes
  buffer : Bytes

def Parcel.Opens (A : Aead) (s : Session) (q : Parcel) : Prop :=
  (deliver A s (q.packet,q.buffer)).1=.ok (q.plain.length,q.plain++q.buffer.drop q.plain.length)

def takeIn (A : Aead) (s : Session) (q : Parcel) : Session := deliverStep A s (q.packet,q.buffer)

/-- Sealed packets as they arrive: with loss and out of order, but none twice and none
64 or more counters behind one that came before it. -/
structure Timely (pairs : List (Bytes × Bytes)) (qs : List Parcel) : Prop where
  sealed : ∀q∈qs,(q.packet,q.plain)∈pairs
  fits : ∀q∈qs,q.plain.length ≤ q.buffer.length
  spread : qs.Pairwise (fun q r => headerCounter q.packet≠headerCounter r.packet ∧
    (headerCounter q.packet).toNat < (headerCounter r.packet).toNat+64)

/-- The packets of one session carry the index and open, in time, at another. -/
structure Reaches (A : Aead) (tx rx : Session) (index : UInt32) : Prop where
  addressed : ∀ms,∀q∈sealedPairs A tx ms,be32 (slice q.1 4 4)=index
  opens : ∀ms qs,Timely (sealedPairs A tx ms) qs → Meets (takeIn A) (Parcel.Opens A) rx qs

section Window

/-- The window holds nothing but counters that were put to it. -/
def Accounts (w : ReplayWindow) (cs : List UInt64) : Prop :=
  (w.highest=0 ∧ ∀c∈cs,c=0) ∨ ∃a,Tracks w a ∧ ∀n∈a.seen,∃c∈cs,c.toNat=n

/-- A counter that is new and not too late is taken. -/
theorem accounts_check (w : ReplayWindow) (cs : List UInt64) (c : UInt64) (h : Accounts w cs)
    (hc : ∀d∈cs,d≠c ∧ d.toNat < c.toNat+64) : (w.check c).1=true ∧ Accounts (w.check c).2 (c::cs) := by
  rcases h with ⟨hz,hall⟩ | ⟨a,ht,hseen⟩
  · rw [check_of_zero w hz]
    refine ⟨rfl,?_⟩
    by_cases h0 : c=0
    · exact .inl ⟨h0,List.forall_mem_cons.mpr ⟨h0,hall⟩⟩
    · have htrack := tracks_first w hz c h0
      rw [check_of_zero w hz] at htrack
      refine .inr ⟨_,htrack,?_⟩
      intro n hn
      exact ⟨c,List.mem_cons_self,(Finset.mem_singleton.mp hn).symm⟩
  · obtain ⟨htake,htrack⟩ := check_tracks w a ht c
    have hnew : c.toNat∉a.seen := by
      intro hm
      obtain ⟨d,hd,he⟩ := hseen _ hm
      exact (hc d hd).1 (UInt64.toNat_inj.mp he)
    obtain ⟨d,hd,htop⟩ := hseen _ a.topSeen
    have hlate := (hc d hd).2
    have hfresh : a.Fresh 64 c.toNat := by
      by_cases hlt : a.top < c.toNat
      · exact .inl hlt
      · exact .inr ⟨by omega,hnew⟩
    refine ⟨htake.mpr hfresh,.inr ⟨_,htrack,?_⟩⟩
    intro n hn
    rcases Window.mem_step_seen hn with rfl | hn
    · exact ⟨c,List.mem_cons_self,rfl⟩
    · obtain ⟨d,hd,he⟩ := hseen n hn
      exact ⟨d,List.mem_cons_of_mem c hd,he⟩

end Window

section Sealed

variable {A : Aead}

/-- A packet is the header under some counter and the plaintext encrypted behind it. -/
def Seals (A : Aead) (s : Session) (packet plain : Bytes) : Prop :=
  ∃counter ct,packet={ s with send := { s.send with counter } }.header++ct ∧
    A.encrypt s.send.key (transportNonce counter) plain { s with send := { s.send with counter } }.header=some ct

theorem sealed_pair (hA : A.Correct) (s : Session) (ms : List (Bytes × Bytes)) (packet plain : Bytes)
    (h : (packet,plain)∈sealedPairs A s ms) : Seals A s packet plain := by
  induction ms generalizing s with
  | nil => cases h
  | cons m ms ih =>
    obtain ⟨out,pt⟩ := m
    rw [sealedPairs,seal_eq] at h
    by_cases hlen : out.length < headerSize+pt.length+16
    · rw [if_pos hlen] at h
      exact ih s h
    rw [if_neg hlen] at h
    by_cases hk : rekeyAfterMessages ≤ s.send.counter
    · rw [if_pos hk] at h
      exact ih s h
    rw [if_neg hk] at h
    cases hct : A.encrypt s.send.key (transportNonce s.send.counter) pt s.header with
    | none =>
      rw [hct] at h
      exact ih s h
    | some ct =>
      rw [hct] at h
      simp only [seal_packet A hA.tagLength s out pt ct hlen hct,List.mem_cons] at h
      rcases h with he | h
      · cases he
        exact ⟨s.send.counter,ct,rfl,hct⟩
      · obtain ⟨counter,ct',hp,hct'⟩ := ih _ h
        exact ⟨counter,ct',hp,hct'⟩

theorem header_fields (s : Session) (ct : Bytes) :
    be32 (slice (s.header++ct) 4 4)=s.peerIndex ∧ (s.header++ct).head?=some msgTypeTransport := by
  constructor
  · have hs := slice_mid [msgTypeTransport,0,0,0] (put32 s.peerIndex) (put64 s.send.counter++ct)
    rw [put32_length] at hs
    have hp : s.header++ct=[msgTypeTransport,0,0,0]++(put32 s.peerIndex++(put64 s.send.counter++ct)) := by
      simp [Session.header,put32]
    rw [hp]
    exact (congrArg be32 hs).trans (be32_put32 _)
  · rfl

theorem Seals.length (hA : A.Correct) {s : Session} {packet plain : Bytes} (h : Seals A s packet plain) :
    packet.length=headerSize+(plain.length+16) := by
  obtain ⟨counter,ct,hp,hct⟩ := h
  rw [hp,List.length_append,Session.header_length,hA.tagLength _ _ _ _ _ hct]

/-- Every packet is addressed to the peer index of the session that sealed it. -/
theorem sealed_address (hA : A.Correct) (s : Session) (ms : List (Bytes × Bytes)) (q : Bytes × Bytes)
    (h : q∈sealedPairs A s ms) : be32 (slice q.1 4 4)=s.peerIndex := by
  obtain ⟨counter,ct,hp,_⟩ := sealed_pair hA s ms q.1 q.2 h
  rw [hp]
  exact (header_fields _ ct).1

/-- A sealed packet is put to the window of the session that holds its key, and opens
when the window takes its counter. -/
theorem open_sealed (hA : A.Correct) (tx rx : Session) (hkey : rx.recv.key=tx.send.key) (q : Parcel)
    (hs : Seals A tx q.packet q.plain) (hfit : q.plain.length ≤ q.buffer.length)
    (htake : (rx.recv.window.check (headerCounter q.packet)).1=true) :
    rx.open A q.packet (headerCounter q.packet) q.buffer=
      (.ok (q.plain.length,q.plain++q.buffer.drop q.plain.length),{ rx with
        recv := { rx.recv with window := (rx.recv.window.check (headerCounter q.packet)).2 } }) := by
  have hlen := Seals.length hA hs
  obtain ⟨counter,ct,hp,hct⟩ := hs
  have hl := hA.tagLength _ _ _ _ _ hct
  have hd := hA.decrypts _ _ _ _ _ hct
  have hheader := Session.header_length { tx with send := { tx.send with counter } }
  have hc : headerCounter q.packet=counter := by
    rw [hp]
    exact headerCounter_header { tx with send := { tx.send with counter } } ct
  have htake' : q.packet.take headerSize={ tx with send := { tx.send with counter } }.header := by
    rw [hp,← hheader,List.take_left]
  have hdrop : q.packet.drop headerSize=ct := by
    rw [hp,← hheader,List.drop_left]
  have hlong : ¬q.packet.length < headerSize := by omega
  have h16 : ¬ct.length < 16 := by omega
  have hn : ct.length-16=q.plain.length := by omega
  have hbuf : ¬q.buffer.length < q.plain.length := by omega
  rw [Session.open,if_neg hlong,htake',hdrop,RecvState.open]
  simp only [if_neg h16,hn,if_neg hbuf,hkey,hc,hd]
  rw [hc] at htake
  cases hw : rx.recv.window.check counter with
  | mk ok w =>
    rw [hw] at htake
    cases htake
    rfl

/-- Whatever has arrived, the parcels that are still in time open one after the other. -/
theorem timely_opens (hA : A.Correct) (tx : Session) (qs : List Parcel) (rx : Session) (cs : List UInt64)
    (hkey : rx.recv.key=tx.send.key) (hs : ∀q∈qs,Seals A tx q.packet q.plain)
    (hfit : ∀q∈qs,q.plain.length ≤ q.buffer.length) (hw : Accounts rx.recv.window cs)
    (hspread : qs.Pairwise (fun q r => headerCounter q.packet≠headerCounter r.packet ∧
      (headerCounter q.packet).toNat < (headerCounter r.packet).toNat+64))
    (hpast : ∀d∈cs,∀q∈qs,d≠headerCounter q.packet ∧ d.toNat < (headerCounter q.packet).toNat+64) :
    Meets (takeIn A) (Parcel.Opens A) rx qs := by
  induction qs generalizing rx cs with
  | nil => trivial
  | cons q qs ih =>
    obtain ⟨hq,hspread⟩ := List.pairwise_cons.mp hspread
    obtain ⟨hsq,hs⟩ := List.forall_mem_cons.mp hs
    obtain ⟨hfq,hfit⟩ := List.forall_mem_cons.mp hfit
    obtain ⟨htake,hnext⟩ := accounts_check _ _ (headerCounter q.packet) hw
      (fun d hd => hpast d hd q List.mem_cons_self)
    have hopen := open_sealed hA tx rx hkey q hsq hfq htake
    refine ⟨congrArg Prod.fst hopen,?_⟩
    rw [takeIn,deliverStep,deliver,hopen]
    refine ih _ (headerCounter q.packet::cs) hkey hs hfit hnext hspread ?_
    intro d hd r hr
    rcases List.mem_cons.mp hd with rfl | hd
    · exact hq r hr
    · exact hpast d hd r (List.mem_cons_of_mem q hr)

/-- The first message of a session that fits a datagram is sealed. -/
theorem sealed_first (hA : A.Correct) (s : Session) (pt : Bytes) (hfit : pt.length ≤ 4096) (h : s.send.counter=0) :
    ∃p,(p,pt)∈sealedPairs A s [(List.replicate (headerSize+pt.length+16) 0,pt)] := by
  have hsome := hA.encrypts s.send.key (transportNonce s.send.counter) pt s.header (by simp [transportNonce]) hfit
  obtain ⟨ct,hct⟩ := Option.isSome_iff_exists.mp hsome
  rw [sealedPairs,seal_eq,if_neg (by simp),if_neg (by rw [h]; decide),hct]
  exact ⟨_,List.mem_cons_self⟩

/-- Under a shared key the packets of a fresh session open at a fresh one, and they
carry the index exactly when the session holds it. -/
theorem reaches_iff (hA : A.Correct) (tx rx : Session) (index : UInt32) (hkey : rx.recv.key=tx.send.key)
    (hw : rx.recv.window=ReplayWindow.new) (hc : tx.send.counter=0) :
    Reaches A tx rx index ↔ tx.peerIndex=index := by
  constructor
  · intro h
    obtain ⟨p,hp⟩ := sealed_first hA tx [] (Nat.zero_le _) hc
    rw [← sealed_address hA tx _ _ hp]
    exact h.addressed _ _ hp
  · intro h
    refine ⟨fun ms q hq => (sealed_address hA tx ms q hq).trans h,?_⟩
    intro ms qs ht
    refine timely_opens hA tx qs rx [] hkey ?_ ht.fits ?_ ht.spread ?_
    · intro q hq
      exact sealed_pair hA tx ms _ _ (ht.sealed q hq)
    · rw [hw]
      exact .inl ⟨rfl,fun _ hd => absurd hd List.not_mem_nil⟩
    · exact fun _ hd => absurd hd List.not_mem_nil

end Sealed

end Bolina.Transport
