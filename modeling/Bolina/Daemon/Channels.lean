import Bolina.Daemon.Deeds
import Bolina.Daemon.Establishment

namespace Bolina

open Codec State Transport Noise BigEndian PartialRun

/-- A sealed packet on its way to the node, the session that sealed it and what is in it. -/
structure Mail where
  sender : Transport.Session
  packet : Bytes
  plain : Bytes
  out : Outside

namespace Mail

def index (m : Mail) : UInt32 := m.sender.peerIndex

def counter (m : Mail) : UInt64 := headerCounter m.packet

def input (m : Mail) : Input := .datagram m.packet m.out

end Mail

/-- The mail is for a bound session that shares its key with the sender's. -/
structure Linked (A : Aead) (t : SessionTable) (m : Mail) : Prop where
  seals : Seals A m.sender m.packet m.plain
  fits : m.plain.length ≤ 4096
  rings : ∃rx,t.lookup m.index=some rx ∧ rx.bound=true ∧ rx.recv.key=m.sender.send.key

/-- The table with other replay windows. -/
def Transport.SessionTable.withWindows (t : SessionTable) (windows : UInt32 → ReplayWindow) : SessionTable :=
  ⟨fun i => { t.slots i with recv := { (t.slots i).recv with window := windows (UInt32.ofNat i) } }⟩

/-- A node that hears plaintexts, with the windows that tell it which it has heard before. -/
structure Hearing where
  windows : UInt32 → ReplayWindow
  node : Endpoint

namespace Hearing

def ofEndpoint (e : Endpoint) : Hearing :=
  ⟨fun i => if h : i.toNat < maxSessions then (e.sessions.slots ⟨i.toNat,h⟩).recv.window else .new,e⟩

/-- The node with the windows in its session table. -/
def endpoint (h : Hearing) : Endpoint := { h.node with sessions := h.node.sessions.withWindows h.windows }

/-- What the window of its sender takes is handled as the plaintext it is, and the rest is refused. -/
def hear (S : Suite) (h : Hearing) (m : Mail) : Option Hearing :=
  match (h.windows m.index).check m.counter with
  | (false,_) => some { h with node := h.node.reject .Transport }
  | (true,w) =>
    (h.node.handleEnvelope S m.out.io m.out.now m.plain).map (fun node => ⟨Function.update h.windows m.index w,node⟩)

end Hearing

section Windows

variable {A : Aead} {t : SessionTable} {windows : UInt32 → ReplayWindow} {i : UInt32}

theorem check_refused {w : ReplayWindow} {c : UInt64} (h : (w.check c).1=false) : (w.check c).2=w := by
  rw [ReplayWindow.check] at h ⊢
  dsimp only at h ⊢
  split_ifs at h ⊢ <;> rfl

theorem lookup_withWindows (t : SessionTable) (windows : UInt32 → ReplayWindow) (i : UInt32) :
    (t.withWindows windows).lookup i=
      (t.lookup i).map (fun s => { s with recv := { s.recv with window := windows i } }) := by
  rw [SessionTable.lookup,SessionTable.lookup]
  by_cases hi : i.toNat < maxSessions
  · rw [dif_pos hi,dif_pos hi]
    simp only [SessionTable.withWindows,UInt32.ofNat_toNat]
    split <;> rfl
  · rw [dif_neg hi,dif_neg hi]
    rfl

/-- A session that is put back with its window moved. -/
theorem put_withWindows {s : Transport.Session} (hs : t.lookup i=some s) (w : ReplayWindow) :
    (t.withWindows windows).put i { s with recv := { s.recv with window := w } }=
      t.withWindows (Function.update windows i w) := by
  have hi := lookup_range t i s hs
  have hslot : t.slots ⟨i.toNat,hi⟩=s := by
    rw [SessionTable.lookup,dif_pos hi] at hs
    split at hs
    · exact Option.some.inj hs
    · cases hs
  rw [SessionTable.put,dif_pos hi]
  apply SessionTable.ext
  funext j
  by_cases hj : j=⟨i.toNat,hi⟩
  · subst hj
    simp only [Function.update_self,SessionTable.withWindows,UInt32.ofNat_toNat,hslot]
  · have hne : UInt32.ofNat j≠i := by
      intro he
      apply hj
      have hji : (j : Nat)=i.toNat := by rw [← he,UInt32.toNat_ofNat_of_lt' (Nat.lt_trans j.isLt (by decide))]
      exact Fin.ext hji
    simp only [Function.update_of_ne hj,SessionTable.withWindows,Function.update_of_ne hne]

theorem withWindows_self (e : Endpoint) : (Hearing.ofEndpoint e).endpoint=e := by
  have hsame : e.sessions.withWindows (Hearing.ofEndpoint e).windows=e.sessions := by
    apply SessionTable.ext
    funext i
    have hi : (UInt32.ofNat i).toNat=i := UInt32.toNat_ofNat_of_lt' (Nat.lt_trans i.isLt (by decide))
    simp only [SessionTable.withWindows,Hearing.ofEndpoint,hi,i.isLt,dite_true]
  rw [Hearing.endpoint]
  exact congrArg (fun sessions => { e with sessions }) hsame

end Windows

section Step

variable {S : Suite} {A : Aead} {keys : Keys} {h : Hearing} {m : Mail}

/-- The window alone decides whether mail is opened. -/
theorem open_mail (hA : A.Correct) (hs : Seals A m.sender m.packet m.plain) (hfit : m.plain.length ≤ 4096)
    (rx : Transport.Session) (hkey : rx.recv.key=m.sender.send.key) :
    rx.open A m.packet m.counter ptBuf=
      (if (rx.recv.window.check m.counter).1 then .ok (m.plain.length,m.plain++ptBuf.drop m.plain.length) else .error .Replay,
        { rx with recv := { rx.recv with window := (rx.recv.window.check m.counter).2 } }) := by
  have hbuf : m.plain.length ≤ ptBuf.length := by rw [ptBuf,List.length_replicate]; exact hfit
  cases htake : (rx.recv.window.check m.counter).1 with
  | true => exact open_sealed hA m.sender rx hkey ⟨m.packet,m.plain,ptBuf⟩ hs hbuf htake
  | false =>
    have hlen := hs.length hA
    obtain ⟨counter,ct,hp,hct⟩ := hs
    have hl := hA.tagLength _ _ _ _ _ hct
    have hd := hA.decrypts _ _ _ _ _ hct
    have hheader := Session.header_length { m.sender with send := { m.sender.send with counter } }
    have hc : headerCounter m.packet=counter := by
      rw [hp]
      exact headerCounter_header { m.sender with send := { m.sender.send with counter } } ct
    have htake' : m.packet.take headerSize={ m.sender with send := { m.sender.send with counter } }.header := by
      rw [hp,← hheader,List.take_left]
    have hdrop : m.packet.drop headerSize=ct := by
      rw [hp,← hheader,List.drop_left]
    rw [Mail.counter,hc] at htake ⊢
    rw [Session.open,if_neg (by omega),htake',hdrop,RecvState.open]
    simp only [hl,Nat.add_sub_cancel,if_neg (Nat.not_lt.mpr hbuf),hkey,hd]
    cases hw : rx.recv.window.check counter with
    | mk ok w =>
      rw [hw] at htake
      cases htake
      rfl

/-- The envelope of a plaintext is handled without a look at the sessions. -/
theorem handleEnvelope_sessions (e : Endpoint) (sessions : SessionTable) (io : Io) (now : UInt64) (plain : Bytes) :
    { e with sessions }.handleEnvelope S io now plain=
      (e.handleEnvelope S io now plain).map (fun e => { e with sessions }) := by
  rw [Endpoint.handleEnvelope,gate_sessions,Endpoint.handleEnvelope]
  cases e.gate S plain with
  | mk through e₁ =>
    cases through with
    | false => rfl
    | true =>
      dsimp only
      rw [Option.map_map]
      rfl

/-- Nor does it change them. -/
theorem handleEnvelope_keeps {e e' : Endpoint} {io : Io} {now : UInt64} {plain : Bytes}
    (h : e.handleEnvelope S io now plain=some e') : e'.sessions=e.sessions := by
  have hsame := @handleEnvelope_sessions S e e.sessions io now plain
  rw [h,Option.map_some] at hsame
  have hself := congrArg Endpoint.sessions (Option.some.inj hsame)
  exact hself

/-- A sealed packet is heard as the plaintext in it. -/
theorem step_mail (hA : A.Correct) (hm : Linked A h.node.sessions m) :
    (h.endpoint.step S A keys m.input).map Prod.fst=(h.hear S m).map Hearing.endpoint := by
  obtain ⟨rx,hf,hb,hkey⟩ := hm.rings
  have hlen := hm.seals.length hA
  have haddress : be32 (slice m.packet 4 4)=m.index ∧ m.packet.head?=some msgTypeTransport := by
    obtain ⟨counter,ct,hp,-⟩ := hm.seals
    rw [hp]
    exact header_fields { m.sender with send := { m.sender.send with counter } } ct
  have hshort : ¬m.packet.length < headerSize+16 := by omega
  have hlook := lookup_withWindows h.node.sessions h.windows m.index
  rw [hf,Option.map_some] at hlook
  have hopen := open_mail hA hm.seals hm.fits { rx with recv := { rx.recv with window := h.windows m.index } } hkey
  have hput := @put_withWindows h.node.sessions h.windows m.index rx hf
  have htake : (m.plain++ptBuf.drop m.plain.length).take m.plain.length=m.plain := List.take_left
  rw [Mail.input,Endpoint.step,handleDatagram_transport haddress.2,Endpoint.handleTransport,if_neg hshort]
  dsimp only
  rw [haddress.1,Hearing.endpoint]
  dsimp only
  rw [hlook]
  dsimp only
  rw [← Mail.counter,hopen,Hearing.hear]
  cases hw : (h.windows m.index).check m.counter with
  | mk ok w =>
    dsimp only
    cases ok with
    | false =>
      have hsame : w=h.windows m.index := by
        have hr := @check_refused (h.windows m.index) m.counter
        rw [hw] at hr
        exact hr rfl
      simp only [Bool.false_eq_true,if_false,Option.map_some,hput,hsame,Function.update_eq_self]
      rfl
    | true =>
      have hmoved := hput w
      simp only [hb] at hmoved
      simp only [if_true,hb,hmoved,htake]
      rw [handleEnvelope_sessions]
      cases he : h.node.handleEnvelope S m.out.io m.out.now m.plain with
      | none => rfl
      | some e' =>
        have hkeeps := handleEnvelope_keeps he
        simp only [Option.map_some,Hearing.endpoint,hkeeps]

/-- The links of the mail are those of the session table, which stays. -/
theorem hear_sessions {h' : Hearing} (hh : h.hear S m=some h') : h'.node.sessions=h.node.sessions := by
  rw [Hearing.hear] at hh
  split at hh
  · cases hh
    rfl
  · obtain ⟨node,hn,rfl⟩ := Option.map_eq_some_iff.mp hh
    exact handleEnvelope_keeps hn

end Step

section Runs

variable {S : Suite} {A : Aead} {keys : Keys}

/-- The endpoint after an input. -/
def Endpoint.after (S : Suite) (A : Aead) (keys : Keys) (e : Endpoint) (x : Input) : Option Endpoint :=
  (e.step S A keys x).map Prod.fst

theorem run_mail (hA : A.Correct) (h : Hearing) (ms : List Mail) (hms : ∀m∈ms,Linked A h.node.sessions m) :
    run (Endpoint.after S A keys) h.endpoint (ms.map Mail.input)=(run (Hearing.hear S) h ms).map Hearing.endpoint := by
  induction ms generalizing h with
  | nil => rfl
  | cons m ms ih =>
    obtain ⟨hm,hms⟩ := List.forall_mem_cons.mp hms
    have hstep : Endpoint.after S A keys h.endpoint m.input=(h.hear S m).map Hearing.endpoint := step_mail hA hm
    rw [List.map_cons,run_cons,run_cons,hstep]
    cases hh : h.hear S m with
    | none => rfl
    | some h' =>
      rw [Option.map_some,Option.bind_some,Option.bind_some]
      exact ih h' (by rw [hear_sessions hh]; exact hms)

/-- Mail of one sender has counters apart, none of them 64 or more behind one that came before it. -/
def Timely (m r : Mail) : Prop :=
  m.index=r.index → m.counter≠r.counter ∧ m.counter.toNat < r.counter.toNat+64

/-- Mail that is in time is heard, all of it and in the order it comes. -/
theorem hear_timely (S : Suite) (h : Hearing) (cs : UInt32 → List UInt64) (ms : List Mail)
    (hw : ∀m∈ms,Accounts (h.windows m.index) (cs m.index)) (hms : ms.Pairwise Timely)
    (hpast : ∀m∈ms,∀c∈cs m.index,c≠m.counter ∧ c.toNat < m.counter.toNat+64) :
    (run (Hearing.hear S) h ms).map Hearing.node=
      run (fun e m => e.handleEnvelope S m.out.io m.out.now m.plain) h.node ms := by
  induction ms generalizing h cs with
  | nil => rfl
  | cons m ms ih =>
    obtain ⟨hm,hms⟩ := List.pairwise_cons.mp hms
    obtain ⟨hpm,hpast⟩ := List.forall_mem_cons.mp hpast
    obtain ⟨hwm,hw⟩ := List.forall_mem_cons.mp hw
    obtain ⟨htake,hnext⟩ := accounts_check _ _ m.counter hwm hpm
    rw [run_cons,run_cons,Hearing.hear]
    cases hc : (h.windows m.index).check m.counter with
    | mk ok w =>
      rw [hc] at htake hnext
      dsimp only at htake hnext
      subst htake
      dsimp only
      cases he : h.node.handleEnvelope S m.out.io m.out.now m.plain with
      | none => rfl
      | some e' =>
        rw [Option.map_some,Option.bind_some,Option.bind_some]
        apply ih ⟨Function.update h.windows m.index w,e'⟩ (Function.update cs m.index (m.counter::cs m.index))
        · intro r hr
          by_cases hi : r.index=m.index
          · simpa [hi] using hnext
          · simpa [Function.update_of_ne hi] using hw r hr
        · exact hms
        · intro r hr c hcs
          by_cases hi : r.index=m.index
          · rw [hi,Function.update_self,List.mem_cons] at hcs
            rcases hcs with rfl|hcs
            · exact hm r hr hi.symm
            · exact hpast r hr c (by rw [hi]; exact hcs)
          · rw [Function.update_of_ne hi] at hcs
            exact hpast r hr c hcs

/-- The sealed packets of any number of bound sessions, lost and mixed in any way but in time, come to the node as the
plaintexts themselves, in the order of their arrival. -/
theorem timely_transparent (S : Suite) (A : Aead) (hA : A.Correct) (keys : Keys) (e : Endpoint)
    (past : UInt32 → List UInt64) (ms : List Mail) (hms : ∀m∈ms,Linked A e.sessions m)
    (hpast : ∀m∈ms,∀rx,e.sessions.lookup m.index=some rx → Accounts rx.recv.window (past m.index) ∧
      ∀c∈past m.index,c≠m.counter ∧ c.toNat < m.counter.toNat+64)
    (htimely : ms.Pairwise Timely) :
    (run (Endpoint.after S A keys) e (ms.map Mail.input)).map (fun e' => { e' with sessions := e.sessions })=
      run (fun e m => e.handleEnvelope S m.out.io m.out.now m.plain) e ms := by
  have hwindow : ∀m∈ms,Accounts ((Hearing.ofEndpoint e).windows m.index) (past m.index) ∧
      ∀c∈past m.index,c≠m.counter ∧ c.toNat < m.counter.toNat+64 := by
    intro m hm
    obtain ⟨rx,hf,-,-⟩ := (hms m hm).rings
    have hknown := hpast m hm rx hf
    have hi := lookup_range _ _ _ hf
    rw [SessionTable.lookup,dif_pos hi] at hf
    split at hf
    · rw [Hearing.ofEndpoint]
      simp only [dif_pos hi,Option.some.inj hf]
      exact hknown
    · cases hf
  have hheard := hear_timely S (Hearing.ofEndpoint e) past ms (fun m hm => (hwindow m hm).1) htimely
    (fun m hm => (hwindow m hm).2)
  have hstart : (Hearing.ofEndpoint e).node=e := rfl
  have hrun := @run_mail S A keys hA (Hearing.ofEndpoint e) ms hms
  rw [withWindows_self] at hrun
  rw [hstart] at hheard
  rw [hrun,← hheard,Option.map_map]
  cases hr : run (Hearing.hear S) (Hearing.ofEndpoint e) ms with
  | none => rfl
  | some h =>
    have hkept : h.node.sessions=e.sessions :=
      @invariant _ _ _ _ _ _ (fun h : Hearing => h.node.sessions=e.sessions)
        (fun h m h' hs hh => (hear_sessions hh).trans hs) hr rfl
    rw [Option.map_some,Option.map_some,Function.comp_apply,Hearing.endpoint,← hkept]

/-- Whatever sealed packets come, from however many bound sessions, with loss, out of order and more than once, the
node ends as one that heard the plaintexts and knew by the windows alone which to leave out. -/
theorem sessions_transparent (S : Suite) (A : Aead) (hA : A.Correct) (keys : Keys) (e : Endpoint) (ms : List Mail)
    (hms : ∀m∈ms,Linked A e.sessions m) :
    run (Endpoint.after S A keys) e (ms.map Mail.input)=
      (run (Hearing.hear S) (Hearing.ofEndpoint e) ms).map Hearing.endpoint := by
  have hrun := @run_mail S A keys hA (Hearing.ofEndpoint e) ms hms
  rw [withWindows_self] at hrun
  exact hrun

end Runs

section Sample

/-- The session of the sample exchange, once it is bound. -/
def boundEndpoint : Endpoint := (engagedEndpoint 0).setBound 0

def boundSession : Transport.Session := { engagedSession 0 with bound := true }

/-- The other end of it. -/
def boundSender : Transport.Session := admittedSession 0 0 (engagedSession 0).recv.key zeroKey zeroKey 0

theorem bound_lookup : boundEndpoint.sessions.lookup 0=some boundSession := by
  have hput : boundEndpoint.sessions=(engagedEndpoint 0).sessions.put 0 boundSession := by
    rw [boundEndpoint,Endpoint.setBound,engaged_lookup]
    rfl
  rw [hput,lookup_put_self _ _ _ (by decide)]
  rfl

/-- What a second initiator has agreed on with the node. -/
def otherAgreed : Handshake.Session := ⟨fixed 32 [1],fixed 32 [2],fixed 32 [3],fixed 32 [4],0⟩

def otherSession : Transport.Session :=
  { admittedSession 1 0 otherAgreed.sendKey otherAgreed.recvKey otherAgreed.handshakeHash 0 with bound := true }

def otherSender : Transport.Session := admittedSession 0 1 otherAgreed.recvKey zeroKey zeroKey 0

/-- The endpoint with both of their sessions bound. -/
def pairedEndpoint : Endpoint := (boundEndpoint.commit ⟨1,by decide⟩ otherAgreed 0).setBound 1

theorem paired_lookup :
    pairedEndpoint.sessions.lookup 0=some boundSession ∧ pairedEndpoint.sessions.lookup 1=some otherSession := by
  have hcommit : (boundEndpoint.commit ⟨1,by decide⟩ otherAgreed 0).sessions.lookup 1=
      some (admittedSession 1 0 otherAgreed.sendKey otherAgreed.recvKey otherAgreed.handshakeHash 0) :=
    commit_lookup boundEndpoint ⟨1,by decide⟩ otherAgreed 0
  have hput : pairedEndpoint.sessions=(boundEndpoint.commit ⟨1,by decide⟩ otherAgreed 0).sessions.put 1 otherSession := by
    rw [pairedEndpoint,Endpoint.setBound,hcommit]
    rfl
  have hother : (0 : UInt32)≠UInt32.ofNat 1 := by decide
  rw [hput]
  constructor
  · rw [lookup_put_of_ne _ _ _ _ (by decide)]
    exact (lookup_put_of_ne boundEndpoint.sessions _ _ _ hother).trans bound_lookup
  · rw [lookup_put_self _ _ _ (by decide)]
    rfl

/-- A packet that the other end of a bound session seals. -/
theorem bound_mail {t : SessionTable} {rx sender : Transport.Session} (plain : Bytes) (hfit : plain.length ≤ 4096)
    (hf : t.lookup sender.peerIndex=some rx) (hb : rx.bound=true) (hk : rx.recv.key=sender.send.key)
    (hfresh : sender.send.counter=0) : ∃m : Mail,Linked chachaPoly t m ∧ m.sender=sender ∧ m.plain=plain := by
  obtain ⟨p,hp⟩ := sealed_first chachaPoly_correct sender plain hfit hfresh
  exact ⟨⟨sender,p,plain,sampleOutside 0⟩,⟨sealed_pair chachaPoly_correct _ _ _ _ hp,hfit,rx,hf,hb,hk⟩,rfl,rfl⟩

/-- Mail of two sessions, of which one comes twice with the other between. -/
theorem sessions_transparent_sample : ∃m n : Mail,Linked chachaPoly pairedEndpoint.sessions m ∧
    Linked chachaPoly pairedEndpoint.sessions n ∧ m.index=0 ∧ n.index=1 ∧ m.plain=[2,7] ∧ n.plain=[1] ∧
    run (Endpoint.after sampleSuite chachaPoly responderKeys) pairedEndpoint ([m,n,m].map Mail.input)=
      (run (Hearing.hear sampleSuite) (Hearing.ofEndpoint pairedEndpoint) [m,n,m]).map Hearing.endpoint := by
  obtain ⟨hfirst,hsecond⟩ := paired_lookup
  obtain ⟨m,hm,hsm,hpm⟩ := @bound_mail pairedEndpoint.sessions boundSession boundSender [2,7] (by decide) hfirst rfl rfl rfl
  obtain ⟨n,hn,hsn,hpn⟩ := @bound_mail pairedEndpoint.sessions otherSession otherSender [1] (by decide) hsecond rfl rfl rfl
  refine ⟨m,n,hm,hn,by rw [Mail.index,hsm]; rfl,by rw [Mail.index,hsn]; rfl,hpm,hpn,
    sessions_transparent sampleSuite chachaPoly chachaPoly_correct responderKeys pairedEndpoint [m,n,m] ?_⟩
  intro r hr
  simp only [List.mem_cons,List.not_mem_nil,or_false] at hr
  rcases hr with rfl|rfl|rfl
  · exact hm
  · exact hn
  · exact hm

end Sample

end Bolina
