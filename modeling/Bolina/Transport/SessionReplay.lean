import Bolina.Transport.ReplayWindow

namespace Bolina.Transport

open BigEndian GuardedRun

/-- What one successful encryption under the key leaves behind. -/
structure Sealed where
  nonce : Bytes
  ad : Bytes
  ct : Bytes
  deriving DecidableEq

/-- The packets of a sequence of `seal` calls, each with its output buffer and
plaintext. A call that fails leaves no packet. -/
def sealedPackets (A : Aead) : Session → List (Bytes × Bytes) → List Bytes
  | _,[] => []
  | s,(out,pt)::ms =>
    match s.seal A out pt with
    | (.error _,s') => sealedPackets A s' ms
    | (.ok (total,buf),s') => buf.take total::sealedPackets A s' ms

/-- The encryptions the same calls make. -/
def sealLog (A : Aead) : Session → List (Bytes × Bytes) → List Sealed
  | _,[] => []
  | s,(out,pt)::ms =>
    match s.seal A out pt,A.encrypt s.send.key (transportNonce s.send.counter) pt s.header with
    | (.ok _,s'),some ct => ⟨transportNonce s.send.counter,s.header,ct⟩::sealLog A s' ms
    | (_,s'),_ => sealLog A s' ms

/-- The tag is 16 bytes. -/
def Aead.TagLength (A : Aead) : Prop :=
  ∀k n m a ct,A.encrypt k n m a=some ct → ct.length=m.length+16

/-- Decryption under the key succeeds exactly on what was sealed under it. -/
def Aead.OpensExactly (A : Aead) (k : Key) (log : List Sealed) : Prop :=
  ∀n a ct,(A.decrypt k n ct a).isSome ↔ ⟨n,a,ct⟩∈log

abbrev Delivery := Bytes × Bytes

/-- One delivery: the counter comes from the packet's own header. -/
def deliver (A : Aead) (s : Session) (d : Delivery) : Except TransportError (Nat × Bytes) × Session :=
  s.open A d.1 (headerCounter d.1) d.2

def deliverStep (A : Aead) (s : Session) (d : Delivery) : Session := (deliver A s d).2

def opensPacket (A : Aead) (p : Bytes) (s : Session) (d : Delivery) : Bool :=
  p==d.1 && (deliver A s d).1.isOk

/-- How many deliveries of the packet `p` the session opens. -/
def openCount (A : Aead) (s : Session) (sched : List Delivery) (p : Bytes) : Nat :=
  count (deliverStep A) (opensPacket A p) s sched

/-- A sealed packet delivered with a buffer that holds its plaintext. -/
def Arrives (packets : List Bytes) (d : Delivery) : Prop :=
  d.1∈packets ∧ d.1.length-headerSize-16 ≤ d.2.length

instance (packets : List Bytes) (d : Delivery) : Decidable (Arrives packets d) :=
  inferInstanceAs (Decidable (_ ∧ _))

/-- The counters of the sealed packets in the order of their arrival. -/
def arrivals (packets : List Bytes) (sched : List Delivery) : List UInt64 :=
  (sched.filter (fun d => decide (Arrives packets d))).map (fun d => headerCounter d.1)

/-- The packet sealed under counter zero is the first to arrive, and arrives again
before any packet with a counter of 64 or more. -/
def ZeroRedelivered (packets : List Bytes) (sched : List Delivery) : Prop :=
  ∃rest,arrivals packets sched=0::rest ∧ ZeroSoon rest

/-- The inner buffer is exactly as long as the ciphertext needs, so `seal` fails
for the outer length, the message bound or the cipher, and otherwise sends. -/
theorem seal_eq (A : Aead) (s : Session) (out pt : Bytes) :
    s.seal A out pt=
      if out.length<headerSize+pt.length+16 then (.error .OutOfRange,s)
      else if rekeyAfterMessages ≤ s.send.counter then (.error .RekeyRequired,s)
      else match A.encrypt s.send.key (transportNonce s.send.counter) pt s.header with
        | none => (.error .DecryptFailed,s)
        | some ct => (.ok (headerSize+pt.length+16,s.header++
            (ct++((out.take (headerSize+pt.length+16)).drop headerSize).drop ct.length)++
              out.drop (headerSize+pt.length+16)),
            { s with send := { s.send with counter := s.send.counter+1 } }) := by
  rw [Session.seal]
  dsimp only
  by_cases hlen : out.length<headerSize+pt.length+16
  · rw [if_pos hlen,if_pos hlen]
  · have hbody : ¬((out.take (headerSize+pt.length+16)).drop headerSize).length<pt.length+16 := by
      simp only [List.length_drop,List.length_take]
      omega
    rw [if_neg hlen,if_neg hlen,CipherState.seal,if_neg hbody]
    by_cases hk : rekeyAfterMessages ≤ s.send.counter
    · rw [if_pos hk,if_pos hk]
    · rw [if_neg hk,if_neg hk]
      cases A.encrypt s.send.key (transportNonce s.send.counter) pt s.header <;> rfl

/-- The bytes a successful `seal` puts on the wire. -/
theorem seal_packet (A : Aead) (hA : A.TagLength) (s : Session) (out pt ct : Bytes)
    (hlen : ¬out.length<headerSize+pt.length+16)
    (hct : A.encrypt s.send.key (transportNonce s.send.counter) pt s.header=some ct) :
    (s.header++(ct++((out.take (headerSize+pt.length+16)).drop headerSize).drop ct.length)++
      out.drop (headerSize+pt.length+16)).take (headerSize+pt.length+16)=s.header++ct := by
  have hl := hA _ _ _ _ _ hct
  have hrest : ((out.take (headerSize+pt.length+16)).drop headerSize).drop ct.length=[] := by
    apply List.drop_eq_nil_of_le
    simp only [List.length_drop,List.length_take]
    omega
  have hfull : headerSize+pt.length+16=(s.header++ct).length := by
    rw [List.length_append,Session.header_length,hl]
    omega
  rw [hrest,List.append_nil,hfull,List.take_left]

/-- The encryption a packet claims to be, read off its own bytes. -/
def claimed (p : Bytes) : Sealed :=
  ⟨transportNonce (headerCounter p),p.take headerSize,p.drop headerSize⟩

theorem claimed_sealed (s : Session) (ct : Bytes) :
    claimed (s.header++ct)=⟨transportNonce s.send.counter,s.header,ct⟩ := by
  have hl := s.header_length
  rw [claimed,headerCounter_header,← hl,List.take_left,List.drop_left]

theorem claimed_injective (p q : Bytes) (h : claimed p=claimed q) : p=q := by
  have ha := congrArg Sealed.ad h
  have hc := congrArg Sealed.ct h
  simp only [claimed] at ha hc
  rw [← List.take_append_drop headerSize p,ha,hc,List.take_append_drop]

theorem counter_succ (s : Session) (hk : ¬rekeyAfterMessages ≤ s.send.counter) :
    (s.send.counter+1).toNat=s.send.counter.toNat+1 := by
  have hb : s.send.counter.toNat<2^48 := by
    apply Nat.lt_of_not_le
    intro h
    exact hk (UInt64.le_iff_toNat_le.mpr h)
  rw [UInt64.toNat_add,UInt64.toNat_one]
  omega

/-- The encryptions of a run are what its packets claim; the packets are long
enough for header and tag, and their counters rise. -/
theorem sealed_run (A : Aead) (hA : A.TagLength) (s : Session) (ms : List (Bytes × Bytes)) :
    sealLog A s ms=(sealedPackets A s ms).map claimed ∧
      (∀p∈sealedPackets A s ms,headerSize+16 ≤ p.length ∧
        s.send.counter.toNat≤(headerCounter p).toNat) ∧
      (sealedPackets A s ms).Pairwise
        (fun p q => (headerCounter p).toNat<(headerCounter q).toNat) := by
  induction ms generalizing s with
  | nil => exact ⟨rfl,by simp [sealedPackets],List.Pairwise.nil⟩
  | cons m ms ih =>
    obtain ⟨out,pt⟩ := m
    rw [sealedPackets,sealLog,seal_eq]
    by_cases hlen : out.length<headerSize+pt.length+16
    · simpa only [hlen,if_true] using ih s
    by_cases hk : rekeyAfterMessages ≤ s.send.counter
    · simpa only [hlen,hk,if_true,if_false] using ih s
    cases hct : A.encrypt s.send.key (transportNonce s.send.counter) pt s.header with
    | none => simpa only [hlen,hk,if_false] using ih s
    | some ct =>
      let next : Session := { s with send := { s.send with counter := s.send.counter+1 } }
      have hrun := ih next
      have hnext : next.send.counter.toNat=s.send.counter.toNat+1 := counter_succ s hk
      have hl := hA _ _ _ _ _ hct
      have hc := headerCounter_header s ct
      simp only [hlen,hk,if_false,seal_packet A hA s out pt ct hlen hct]
      refine ⟨?_,?_,List.pairwise_cons.mpr ⟨?_,hrun.2.2⟩⟩
      · rw [List.map_cons,claimed_sealed]
        exact congrArg _ hrun.1
      · intro p hp
        cases List.mem_cons.mp hp with
        | inl he =>
          rw [he,hc,List.length_append,Session.header_length,hl]
          omega
        | inr hp =>
          have h := hrun.2.1 p hp
          exact ⟨h.1,by omega⟩
      · intro q hq
        have h := (hrun.2.1 q hq).2
        rw [hc]
        omega

/-- Two packets of a run with one counter are one packet. -/
theorem sealed_counter_injective (A : Aead) (hA : A.TagLength) (s : Session)
    (ms : List (Bytes × Bytes)) (p q : Bytes) (hp : p∈sealedPackets A s ms)
    (hq : q∈sealedPackets A s ms) (h : headerCounter p=headerCounter q) : p=q := by
  have hpw := (sealed_run A hA s ms).2.2
  have hnd : ((sealedPackets A s ms).map headerCounter).Nodup := by
    apply List.pairwise_map.mpr
    apply hpw.imp
    intro x y hlt he
    rw [he] at hlt
    exact Nat.lt_irrefl _ hlt
  exact List.inj_on_of_nodup_map hnd hp hq h

/-- What a delivery does: an arriving packet is put to the window, anything else
is refused and leaves no trace. -/
theorem deliver_eq (A : Aead) (s : Session) (packets : List Bytes)
    (hlen : ∀p∈packets,headerSize+16 ≤ p.length)
    (hopen : A.OpensExactly s.recv.key (packets.map claimed)) (d : Delivery) :
    ((deliver A s d).1.isOk=true ↔
      Arrives packets d ∧ (s.recv.window.check (headerCounter d.1)).1=true) ∧
    (deliverStep A s d).recv=
      (if Arrives packets d then
        { s.recv with window := s.recv.window.step (headerCounter d.1) } else s.recv) := by
  obtain ⟨p,out⟩ := d
  have hdec := hopen (transportNonce (headerCounter p)) (p.take headerSize) (p.drop headerSize)
  have hmem : claimed p∈packets.map claimed ↔ p∈packets := by
    constructor
    · intro h
      obtain ⟨q,hq,he⟩ := List.mem_map.mp h
      rwa [← claimed_injective q p he]
    · exact fun h => List.mem_map_of_mem h
  change _ ↔ claimed p∈_ at hdec
  rw [hmem] at hdec
  have habsent (h : p.length<headerSize+16) : p∉packets := by
    intro hp
    have := hlen p hp
    omega
  unfold deliverStep deliver Session.open RecvState.open Arrives
  dsimp only
  by_cases hh : p.length<headerSize
  · have hp := habsent (by omega)
    simp [hh,hp,Except.isOk,Except.toBool]
  by_cases hct : (p.drop headerSize).length<16
  · have hp := habsent (by simp only [List.length_drop] at hct; omega)
    simp only [hh,hct,hp,if_true,if_false,false_and]
    simp [Except.isOk,Except.toBool]
  have hpt : (p.drop headerSize).length-16=p.length-headerSize-16 := by
    rw [List.length_drop]
  by_cases hbuf : out.length<p.length-headerSize-16
  · have hn : ¬p.length-headerSize-16 ≤ out.length := by omega
    simp only [hh,hct,hpt,hbuf,hn,if_true,if_false,and_false,false_and]
    simp [Except.isOk,Except.toBool]
  have hfit : p.length-headerSize-16 ≤ out.length := by omega
  simp only [hh,hct,hpt,hbuf,hfit,if_false,and_true]
  cases hd : A.decrypt s.recv.key (transportNonce (headerCounter p)) (p.drop headerSize)
      (p.take headerSize) with
  | none =>
    have hp : p∉packets := by
      intro hp
      have h := hdec.mpr hp
      rw [hd] at h
      simp at h
    simp [hp,Except.isOk,Except.toBool]
  | some pt =>
    have hp : p∈packets := hdec.mp (by rw [hd]; rfl)
    simp only [hp,if_true,true_and]
    rw [ReplayWindow.step]
    rcases hw : s.recv.window.check (headerCounter p) with ⟨ok,w⟩
    cases ok <;> simp [Except.isOk,Except.toBool]

theorem arrivals_cons (packets : List Bytes) (d : Delivery) (sched : List Delivery) :
    arrivals packets (d::sched)=
      if Arrives packets d then headerCounter d.1::arrivals packets sched
      else arrivals packets sched := by
  by_cases ha : Arrives packets d <;> simp [arrivals,ha]

/-- The session opens a sealed packet as often as its window takes the packet's
counter out of the arriving ones. -/
theorem openCount_eq (A : Aead) (tx : Session) (hA : A.TagLength) (ms : List (Bytes × Bytes))
    (p : Bytes) (hp : p∈sealedPackets A tx ms) (s : Session)
    (hopen : A.OpensExactly s.recv.key (sealLog A tx ms)) (sched : List Delivery) :
    openCount A s sched p=
      count ReplayWindow.step (ReplayWindow.takes (headerCounter p)) s.recv.window
        (arrivals (sealedPackets A tx ms) sched) := by
  obtain ⟨hlog,hlen,-⟩ := sealed_run A hA tx ms
  induction sched generalizing s with
  | nil => rfl
  | cons d sched ih =>
    have hd := deliver_eq A s (sealedPackets A tx ms) (fun q hq => (hlen q hq).1)
      (by rw [← hlog]; exact hopen) d
    have hkey : (deliverStep A s d).recv.key=s.recv.key := by
      rw [hd.2]
      split <;> rfl
    have htail := ih (deliverStep A s d) (by rw [hkey]; exact hopen)
    rw [openCount] at htail ⊢
    rw [count,htail,hd.2,arrivals_cons]
    by_cases ha : Arrives (sealedPackets A tx ms) d
    · have hsame : (p==d.1)=(headerCounter p==headerCounter d.1) := by
        rw [Bool.eq_iff_iff,beq_iff_eq,beq_iff_eq]
        exact ⟨fun h => by rw [h],sealed_counter_injective A hA tx ms p d.1 hp ha.1⟩
      have hok : (deliver A s d).1.isOk=(s.recv.window.check (headerCounter d.1)).1 := by
        rw [Bool.eq_iff_iff,hd.1]
        exact ⟨fun h => h.2,fun h => ⟨ha,h⟩⟩
      simp only [ha,if_true,count,opensPacket,hok,hsame,ReplayWindow.takes]
    · have hok : (deliver A s d).1.isOk=false := by
        rw [Bool.eq_false_iff]
        exact fun h => ha (hd.1.mp h).1
      simp only [ha,if_false,opensPacket,hok,Bool.and_false,Bool.toNat_false,Nat.zero_add]

/-- Replay safety of one installed key, exactly: a session opens every sealed packet
at most once unless the packet of counter zero arrives first and then again before
any counter of 64 or more. -/
theorem session_replay_iff (A : Aead) (hA : A.TagLength) (tx rx : Session)
    (hrx : rx.recv.window=ReplayWindow.new) (hkey : rx.recv.key=tx.send.key) (ms : List (Bytes × Bytes))
    (hopen : A.OpensExactly tx.send.key (sealLog A tx ms)) (sched : List Delivery) :
    (∀p∈sealedPackets A tx ms,openCount A rx sched p≤1) ↔
      ¬ZeroRedelivered (sealedPackets A tx ms) sched := by
  have hcount (p : Bytes) (hp : p∈sealedPackets A tx ms) :=
    openCount_eq A tx hA ms p hp rx (by rw [hkey]; exact hopen) sched
  rw [hrx] at hcount
  rw [ZeroRedelivered,← window_once_iff]
  constructor
  · intro h c
    by_cases hc : c∈arrivals (sealedPackets A tx ms) sched
    · obtain ⟨d,hd,rfl⟩ := List.mem_map.mp hc
      have ha := (List.mem_filter.mp hd).2
      have hp := (of_decide_eq_true ha).1
      rw [← hcount d.1 hp]
      exact h d.1 hp
    · rw [count_takes_of_notMem c _ _ hc]
      exact Nat.zero_le 1
  · intro h p hp
    rw [hcount p hp]
    exact h _

section Sample

def sampleEncrypt (_ : Key) (_ m _ : Bytes) : Option Bytes := some (m++List.replicate 16 0xAA)

/-- Two seals, one plaintext byte each. -/
def sampleMessages : List (Bytes × Bytes) := List.replicate 2 (List.replicate 40 0,[7])

def sampleLog : List Sealed := sealLog ⟨sampleEncrypt,fun _ _ _ _ => none⟩ Session.new sampleMessages

/-- A cipher that opens what the two sample seals made, and nothing else. -/
def sampleAead : Aead where
  encrypt := sampleEncrypt
  decrypt _ n ct ad := if ⟨n,ad,ct⟩∈sampleLog then some (ct.take (ct.length-16)) else none

theorem sampleAead_tagLength : sampleAead.TagLength := by
  intro k n m a ct h
  have he : m++List.replicate 16 0xAA=ct := Option.some.inj h
  rw [← he,List.length_append,List.length_replicate]

theorem sampleAead_opensExactly :
    sampleAead.OpensExactly zeroKey (sealLog sampleAead Session.new sampleMessages) := by
  intro n a ct
  show (if ⟨n,a,ct⟩∈sampleLog then some (ct.take (ct.length-16)) else none).isSome ↔
    ⟨n,a,ct⟩∈sampleLog
  split <;> simp_all

def samplePacket (i : Nat) : Delivery :=
  ((sealedPackets sampleAead Session.new sampleMessages).getD i [],[0])

/-- The packet of counter zero, delivered twice in a row, is opened twice. -/
theorem zero_packet_opens_twice :
    sampleAead.TagLength ∧
    sampleAead.OpensExactly zeroKey (sealLog sampleAead Session.new sampleMessages) ∧
    ¬∀p∈sealedPackets sampleAead Session.new sampleMessages,
      openCount sampleAead Session.new [samplePacket 0,samplePacket 0] p≤1 :=
  ⟨sampleAead_tagLength,sampleAead_opensExactly,by decide⟩

/-- With the packet of counter one in front, the same deliveries open each packet once. -/
theorem session_replay_iff_sample :
    (∀p∈sealedPackets sampleAead Session.new sampleMessages,
      openCount sampleAead Session.new
        [samplePacket 1,samplePacket 0,samplePacket 0,samplePacket 1] p≤1) ↔
      ¬ZeroRedelivered (sealedPackets sampleAead Session.new sampleMessages)
        [samplePacket 1,samplePacket 0,samplePacket 0,samplePacket 1] :=
  session_replay_iff sampleAead sampleAead_tagLength Session.new Session.new rfl rfl
    sampleMessages sampleAead_opensExactly _

end Sample

end Bolina.Transport
