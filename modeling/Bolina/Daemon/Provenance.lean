import Bolina.Control.EventDelivery
import Bolina.Daemon.Deeds
import Bolina.Transport.ResolverSet

namespace Bolina

open Codec Intent State Transport Control Noise PartialRun

namespace Deed

def record : Deed → Option SenderEntry
  | .proposed _ record => record
  | _ => none

def certificate : Deed → Option (Bytes × Bytes)
  | .bound kw => some kw
  | _ => none

def isPosted : Deed → Bool
  | .posted _ => true
  | _ => false

/-- The deed puts the entry into the table. -/
def Admits (d : Deed) (e : Entry) : Prop := d.entry=some e

/-- The deed takes the entry of the id out of the table. -/
def Withdraws (d : Deed) (intentId : FixedBytes 16) : Prop := d=.withdrawn intentId

end Deed

section Fold

variable {a : Authority} {d : Deed} {ds : List Deed} {e : Entry}

theorem mem_apply_iff : e∈(a.apply d).intents ↔ d.Admits e ∨ e∈a.intents ∧ ¬d.Withdraws e.intentId := by
  have hadds : ∀entry,d.entry=some entry → ¬d.Withdraws e.intentId → (a.apply d).intents=a.intents++[entry] →
      (e∈(a.apply d).intents ↔ d.Admits e ∨ e∈a.intents ∧ ¬d.Withdraws e.intentId) := by
    intro entry hentry hstays hlist
    rw [hlist,List.mem_append,List.mem_singleton,Deed.Admits,hentry,Option.some_inj,and_iff_left hstays,or_comm,
      @eq_comm _ e entry]
  have hkeeps : d.entry=none → ¬d.Withdraws e.intentId → (a.apply d).intents=a.intents →
      (e∈(a.apply d).intents ↔ d.Admits e ∨ e∈a.intents ∧ ¬d.Withdraws e.intentId) := by
    intro hentry hstays hlist
    rw [hlist,Deed.Admits,hentry,and_iff_left hstays,or_iff_right (by simp)]
  cases d with
  | posted entry => exact hadds entry rfl (by simp [Deed.Withdraws]) rfl
  | proposed entry record => cases record <;> exact hadds entry rfl (by simp [Deed.Withdraws]) rfl
  | withdrawn intentId =>
    have hlist : (a.apply (.withdrawn intentId)).intents=a.intents.filter (fun e => decide (e.intentId≠intentId)) := rfl
    rw [hlist,List.mem_filter,decide_eq_true_eq,or_iff_right (by simp [Deed.Admits,Deed.entry])]
    simp [Deed.Withdraws,eq_comm]
  | _ => exact hkeeps rfl (by simp [Deed.Withdraws]) rfl

/-- What a deed adds to the lists and counters, and what it leaves. -/
theorem apply_frame (a : Authority) (d : Deed) :
    (a.apply d).senders=a.senders++d.record.toList ∧ (a.apply d).certs=a.certs++d.certificate.toList ∧
      (a.apply d).admittedTotal=a.admittedTotal+d.isPosted.toNat ∧
      (a.apply d).admissionsTotal=a.admissionsTotal+d.record.isSome.toNat ∧ (a.apply d).ledger=a.ledger ∧
      (a.apply d).disk=a.disk ∧ (a.apply d).ring=(a.publish d.tag).ring := by
  have hnil : ∀{α : Type} (xs : List α),xs=xs++[] := fun xs => (List.append_nil xs).symm
  cases d with
  | proposed entry record =>
    cases record with
    | none => exact ⟨hnil _,hnil _,rfl,rfl,rfl,rfl,rfl⟩
    | some record => exact ⟨rfl,hnil _,rfl,rfl,rfl,rfl,rfl⟩
  | bound kw => exact ⟨hnil _,rfl,rfl,rfl,rfl,rfl,rfl⟩
  | _ => exact ⟨hnil _,hnil _,rfl,rfl,rfl,rfl,rfl⟩

/-- The ring keeps the newest of the events that the deeds publish. -/
theorem foldl_ring (ds : List Deed) (a : Authority) (log : List EventTag) (h : Keeps a.ring log) :
    Keeps (ds.foldl Authority.apply a).ring (log++ds.filterMap Deed.tag) := by
  induction ds generalizing a log with
  | nil => simpa using h
  | cons d ds ih =>
    obtain ⟨-,-,-,-,-,-,hring⟩ := apply_frame a d
    rw [List.foldl_cons]
    cases ht : d.tag with
    | none =>
      rw [ht] at hring
      rw [List.filterMap_cons_none ht]
      exact ih _ _ (hring ▸ h)
    | some tag =>
      rw [ht] at hring
      rw [List.filterMap_cons_some ht,List.append_cons]
      exact ih _ _ (hring ▸ publish_keeps h tag)

end Fold

/-- The deed has its warrant, and is all that the step does to the authority. -/
structure Justified (S : Suite) (A : Aead) (keys : Keys) (s : Controlled) (x : Tick) (d : Deed) (s' : Controlled) : Prop where
  warrant : Warrant S A keys s x d
  authority : s'.authority=s.authority.apply d

/-- The deeds account for everything a node keeps of what it was asked and allowed to do. -/
structure AccountedBy (s : Controlled) (ds : List Deed) : Prop where
  intents : ∀e,e∈s.endpoint.daemon.intents.entries ↔
    ∃pre d post,ds=pre++d::post ∧ d.Admits e ∧ ∀c∈post,¬c.Withdraws e.intentId
  senders : s.endpoint.daemon.senders.entries=ds.filterMap Deed.record
  certs : s.endpoint.daemon.certs=ds.filterMap Deed.certificate
  ring : Keeps s.endpoint.daemon.ring (ds.filterMap Deed.tag)
  posted : s.metrics.admittedTotal=ds.countP Deed.isPosted
  recorded : s.endpoint.daemon.wire.admissionsTotal=ds.countP (fun d => d.record.isSome)

section Runs

variable {S : Suite} {A : Aead} {keys : Keys} {s s' : Controlled} {xs : List Tick}

theorem Controlled.run_eq_partial (s : Controlled) (xs : List Tick) :
    s.run S A keys xs=PartialRun.run (fun s x => s.step S A keys x) s xs := foldl_eq_run s xs

theorem accounted_boot (S : Suite) (keys : Keys) (resolver : Resolver) (ledger : Option GrantLedger) (disk : Disk)
    (token : Option (FixedBytes 64)) (ds : List Deed)
    (h : s.authority=ds.foldl Authority.apply (Controlled.boot S keys resolver ledger disk token).authority) :
    AccountedBy s ds ∧ s.endpoint.daemon.ledger=ledger ∧ s.endpoint.disk=disk := by
  have hview : ∀{α : Type} (view : Authority → α),view s.authority=
      view (ds.foldl Authority.apply (Controlled.boot S keys resolver ledger disk token).authority) :=
    fun view => congrArg view h
  have hmem := fun e : Entry => @foldl_holds_iff Deed Authority Authority.apply (fun a => e∈a.intents)
    (fun d => d.Admits e) (fun d => d.Withdraws e.intentId) (fun a d => mem_apply_iff) ds
    (Controlled.boot S keys resolver ledger disk token).authority
  refine ⟨⟨?_,?_,?_,?_,?_,?_⟩,?_,?_⟩
  · intro e
    have hnil : ¬e∈(Controlled.boot S keys resolver ledger disk token).authority.intents := List.not_mem_nil
    rw [← h] at hmem
    exact (hmem e).trans (or_iff_left (fun hw => hnil hw.1))
  · rw [← List.nil_append (ds.filterMap Deed.record)]
    exact (hview Authority.senders).trans (foldl_collects (fun a d => (apply_frame a d).1) ds _)
  · rw [← List.nil_append (ds.filterMap Deed.certificate)]
    exact (hview Authority.certs).trans (foldl_collects (fun a d => (apply_frame a d).2.1) ds _)
  · have hring := foldl_ring ds (Controlled.boot S keys resolver ledger disk token).authority [] ⟨rfl,rfl⟩
    rw [← h] at hring
    exact hring
  · rw [← Nat.zero_add (ds.countP Deed.isPosted)]
    exact (hview Authority.admittedTotal).trans (foldl_counts (fun a d => (apply_frame a d).2.2.1) ds _)
  · rw [← Nat.zero_add (ds.countP (fun d => d.record.isSome))]
    exact (hview Authority.admissionsTotal).trans (foldl_counts (fun a d => (apply_frame a d).2.2.2.1) ds _)
  · exact (hview Authority.ledger).trans (foldl_keeps (fun a d => (apply_frame a d).2.2.2.2.1) ds _)
  · exact (hview Authority.disk).trans (foldl_keeps (fun a d => (apply_frame a d).2.2.2.2.2.1) ds _)

/-- A run from the boot does not end, and its deeds make the authority. -/
theorem boot_explained (S : Suite) (A : Aead) (keys : Keys) (resolver : Resolver) (ledger : Option GrantLedger)
    (disk : Disk) (token : Option (FixedBytes 64)) (xs : List Tick) :
    ∃s,∃ws : List (Tick × Deed),(Controlled.boot S keys resolver ledger disk token).run S A keys xs=some s ∧
      ws.map Prod.fst=xs ∧
      Explained (fun s x => s.step S A keys x) (Justified S A keys) (Controlled.boot S keys resolver ledger disk token)
        ws s ∧
      s.authority=(ws.map Prod.snd).foldl Authority.apply (Controlled.boot S keys resolver ledger disk token).authority := by
  have hboot := sound_boot S keys resolver ledger disk token
  obtain ⟨s,hrun,-⟩ := never_ends (fun s x (h : s.Sound S keys) => h.step A x) _ hboot xs
  obtain ⟨ws,hws,hex⟩ := explained (fun s x s' (h : s.Sound S keys) hx => h.next hx)
    (fun s x s' (h : s.Sound S keys) hx => (step_deed h hx).imp (fun d hd => (⟨hd.1,hd.2⟩ : Justified S A keys s x d s')))
    hrun hboot
  exact ⟨s,ws,(Controlled.run_eq_partial _ xs).trans hrun,hws,hex,
    hex.fold (fun s x d s' (h : Justified S A keys s x d s') => h.authority)⟩

/-- Whatever comes in, the node goes on, and every step of its run is one deed under its warrant. The deeds
account for all that the node keeps; its grant ledger and the file stay as they were at boot. -/
theorem deeds_of_run (S : Suite) (A : Aead) (keys : Keys) (resolver : Resolver) (ledger : Option GrantLedger)
    (disk : Disk) (token : Option (FixedBytes 64)) (xs : List Tick) :
    ∃s,∃ws : List (Tick × Deed),(Controlled.boot S keys resolver ledger disk token).run S A keys xs=some s ∧
      ws.map Prod.fst=xs ∧
      Explained (fun s x => s.step S A keys x) (Justified S A keys) (Controlled.boot S keys resolver ledger disk token)
        ws s ∧
      AccountedBy s (ws.map Prod.snd) ∧ s.endpoint.daemon.ledger=ledger ∧ s.endpoint.disk=disk := by
  obtain ⟨s,ws,hrun,hws,hex,hfold⟩ := boot_explained S A keys resolver ledger disk token xs
  exact ⟨s,ws,hrun,hws,hex,accounted_boot S keys resolver ledger disk token _ hfold⟩

/-- The tick puts the entry into the table: it is a post under the token, or an intent in a sealed envelope
of a bound session. -/
inductive Admitting (S : Suite) (A : Aead) (s : Controlled) : Tick → Entry → Prop
  | posted (buf : Bytes) (now : UInt64) (req : Request) (p : Posted) (canonical : Bytes)
      (h : Posts s buf req p canonical) :
      Admitting S A s (.request buf now) (admittedEntry p.intentId canonical h.admissible.fits now)
  | proposed (pkt plain : Bytes) (out : Outside) (session : Transport.Session) (env : Envelope) (i : Codec.Intent)
      (canonical : Bytes) (delivers : Delivers S A s.endpoint pkt plain session)
      (h : Proposes S.toCrypto s.endpoint.daemon.dispatcher plain env i canonical) :
      Admitting S A s (.input (.datagram pkt out))
        (admittedEntry (fixed 16 i.intentId) canonical h.admissible.fits out.now)

/-- The tick is a refusal of the id in a sealed envelope of a bound session, by the holder of a known certificate. -/
structure Refusing (S : Suite) (A : Aead) (s : Controlled) (x : Tick) (intentId : FixedBytes 16) (pkt plain : Bytes)
    (out : Outside) (session : Transport.Session) (env : Envelope) (refusal : Refusal) (cert : Cert) : Prop where
  tick : x=.input (.datagram pkt out)
  delivers : Delivers S A s.endpoint pkt plain session
  refuses : Refuses S.toCrypto plain (ledgerHooks out.io out.now s.endpoint.daemon.certForSender) env refusal cert
  names : fixed 16 refusal.intentId=intentId

theorem Warrant.admitting {x : Tick} {d : Deed} {e : Entry} (h : Warrant S A keys s x d) (he : d.Admits e) :
    Admitting S A s x e := by
  cases h with
  | nothing => cases he
  | bound => cases he
  | posted buf now req p canonical hp =>
    cases he
    exact .posted buf now req p canonical hp
  | delivered pkt plain out session d hd horders =>
    cases horders with
    | proposed env i canonical hprop =>
      cases he
      exact .proposed pkt plain out session env i canonical hd hprop
    | _ => cases he

theorem Warrant.refusing {x : Tick} {d : Deed} {intentId : FixedBytes 16} (h : Warrant S A keys s x d)
    (hw : d.Withdraws intentId) :
    ∃pkt plain out session env refusal cert,Refusing S A s x intentId pkt plain out session env refusal cert := by
  cases h with
  | nothing => cases hw
  | bound => cases hw
  | posted => cases hw
  | delivered pkt plain out session d hd horders =>
    cases horders with
    | withdrawn env refusal cert hr =>
      cases hw
      exact ⟨pkt,plain,out,session,env,refusal,cert,rfl,hd,hr,rfl⟩
    | _ => cases hw

/-- The resources are those of the boot. -/
theorem step_resolver {x : Tick} (h : s.step S A keys x=some s') : s'.endpoint.daemon.resolver=s.endpoint.daemon.resolver := by
  cases x with
  | input y =>
    obtain ⟨⟨e',acts⟩,he,heq⟩ := Option.map_eq_some_iff.mp h
    cases heq
    exact (step_binding he).2
  | request buf now =>
    cases h
    rfl

/-- What a run from the boot keeps. -/
structure Kept (S : Suite) (keys : Keys) (resolver : Resolver) (s : Controlled) : Prop where
  sound : s.Sound S keys
  resolver : s.endpoint.daemon.resolver=resolver

theorem kept_boot (S : Suite) (keys : Keys) (resolver : Resolver) (ledger : Option GrantLedger) (disk : Disk)
    (token : Option (FixedBytes 64)) : Kept S keys resolver (Controlled.boot S keys resolver ledger disk token) :=
  ⟨sound_boot S keys resolver ledger disk token,rfl⟩

theorem Kept.next {resolver : Resolver} {x : Tick} (h : Kept S keys resolver s) (hx : s.step S A keys x=some s') :
    Kept S keys resolver s' := ⟨h.sound.next hx,(step_resolver hx).trans h.resolver⟩

/-- What an admission leaves is pending, and is on a resource of the resolver that is the node's own. -/
theorem Admitting.entry {x : Tick} {e : Entry} (h : Admitting S A s x e) :
    e.state=.Pending ∧ e.resource∈s.endpoint.daemon.resolver.entries ∧
      fpOf e.resource=s.endpoint.daemon.resolver.ownFp := by
  cases h with
  | posted buf now req p canonical hp =>
    refine ⟨rfl,?_⟩
    rw [admittedEntry_resource]
    exact resolve_declared hp.admissible.resolves
  | proposed pkt plain out session env i canonical hd hprop =>
    refine ⟨rfl,?_⟩
    rw [admittedEntry_resource]
    exact resolve_declared hprop.admissible.resolves

theorem known_of_certForSender {d : Daemon} {sender : Bytes} {cert : Cert} (h : d.certForSender sender=some cert) :
    ∃kw∈d.certs,kw.1=sender ∧ parseCert kw.2=.ok cert := by
  rw [Daemon.certForSender,Option.map_eq_some_iff] at h
  obtain ⟨⟨k,c⟩,hfind,rfl⟩ := h
  have hkey := List.find?_some hfind
  obtain ⟨kw,hkw,hparse⟩ := List.mem_filterMap.mp (List.mem_of_find?_eq_some hfind)
  refine ⟨kw,hkw,?_⟩
  split at hparse
  · cases hparse
    exact ⟨by simpa using hkey,by assumption⟩
  · cases hparse

/-- What holds at the end of a run and not at its start has come with a deed. -/
theorem came_by_deed (P : Controlled → Prop) (hs : s.Sound S keys)
    (h : PartialRun.run (fun s x => s.step S A keys x) s xs=some s') (hn : ¬P s) (hp : P s') :
    ∃pre x post a b d,xs=pre++x::post ∧ PartialRun.run (fun s x => s.step S A keys x) s pre=some a ∧ ¬P a ∧ P b ∧
      Warrant S A keys a x d ∧ b.authority=a.authority.apply d := by
  obtain ⟨a,x,b,post,htook,-,ha,hb⟩ := came h hn hp
  obtain ⟨⟨pre,hxs,hpre⟩,htaken⟩ := htook
  have hsound := invariant (fun s x s' (h : s.Sound S keys) hx => h.next hx) hpre hs
  obtain ⟨d,hw,hd⟩ := step_deed hsound htaken
  exact ⟨pre,x,post,a,b,d,hxs,hpre,ha,hb,hw,hd⟩

/-- A certificate that was not known at the start of a run was attested in it. -/
theorem cert_came {kw : Bytes × Bytes} (hs : s.Sound S keys)
    (h : PartialRun.run (fun s x => s.step S A keys x) s xs=some s') (hnew : kw∉s.endpoint.daemon.certs)
    (hkw : kw∈s'.endpoint.daemon.certs) :
    ∃pre y post a,xs=pre++.input y::post ∧ PartialRun.run (fun s x => s.step S A keys x) s pre=some a ∧
      a.endpoint.binding S A keys y=some kw := by
  obtain ⟨pre,x,post,a,b,d,hxs,hpre,ha,hb,hw,hd⟩ := came_by_deed (fun s => kw∈s.endpoint.daemon.certs) hs h hnew hkw
  have hcerts : b.endpoint.daemon.certs=a.endpoint.daemon.certs++d.certificate.toList :=
    (congrArg Authority.certs hd).trans (apply_frame _ d).2.1
  rw [hcerts,List.mem_append,or_iff_right ha,Option.mem_toList] at hb
  cases hw with
  | bound y kw' hbinding =>
    cases hb
    exact ⟨pre,y,post,a,hxs,hpre,hbinding⟩
  | nothing => cases hb
  | posted => cases hb
  | delivered pkt plain out session d hdel horders => cases horders <;> cases hb

/-- An intent that comes into the table is admitted by a tick. -/
theorem intent_came {e : Entry} (hs : s.Sound S keys)
    (h : PartialRun.run (fun s x => s.step S A keys x) s xs=some s') (hnew : e∉s.endpoint.daemon.intents.entries)
    (he : e∈s'.endpoint.daemon.intents.entries) :
    ∃pre x post a,xs=pre++x::post ∧ PartialRun.run (fun s x => s.step S A keys x) s pre=some a ∧
      e∉a.endpoint.daemon.intents.entries ∧ Admitting S A a x e := by
  obtain ⟨pre,x,post,a,b,d,hxs,hpre,ha,hb,hw,hd⟩ := came_by_deed (fun s => e∈s.endpoint.daemon.intents.entries) hs h hnew he
  have hmem : e∈(a.authority.apply d).intents := by
    rw [← hd]
    exact hb
  rcases mem_apply_iff.mp hmem with hadmits|⟨hold,-⟩
  · exact ⟨pre,x,post,a,hxs,hpre,ha,hw.admitting hadmits⟩
  · exact absurd hold ha

/-- An intent that leaves the table is refused by a tick. -/
theorem intent_left {e : Entry} (hs : s.Sound S keys)
    (h : PartialRun.run (fun s x => s.step S A keys x) s xs=some s') (he : e∈s.endpoint.daemon.intents.entries)
    (hgone : e∉s'.endpoint.daemon.intents.entries) :
    ∃pre x post a pkt plain out session env refusal cert,xs=pre++x::post ∧
      PartialRun.run (fun s x => s.step S A keys x) s pre=some a ∧
      Refusing S A a x e.intentId pkt plain out session env refusal cert := by
  obtain ⟨pre,x,post,a,b,d,hxs,hpre,ha,hb,hw,hd⟩ := came_by_deed (fun s => e∉s.endpoint.daemon.intents.entries) hs h (not_not.mpr he) hgone
  have hmem : e∉(a.authority.apply d).intents := by
    rw [← hd]
    exact hb
  rw [mem_apply_iff,not_or,not_and,not_not] at hmem
  obtain ⟨pkt,plain,out,session,env,refusal,cert,hr⟩ := hw.refusing (hmem.2 (not_not.mp ha))
  exact ⟨pre,x,post,a,pkt,plain,out,session,env,refusal,cert,hxs,hpre,hr⟩

end Runs

section Provenance

variable (S : Suite) (A : Aead) (keys : Keys) (resolver : Resolver) (ledger : Option GrantLedger) (disk : Disk)
  (token : Option (FixedBytes 64))

/-- Every intent that a node holds is pending, is on a resource declared at boot, and was admitted by a tick
of its run: a post under the token or an intent in a sealed envelope of a bound session. -/
theorem intent_provenance (xs : List Tick) :
    let boot := Controlled.boot S keys resolver ledger disk token
    ∃s,boot.run S A keys xs=some s ∧ ∀e∈s.endpoint.daemon.intents.entries,e.state=.Pending ∧
      e.resource∈resolver.entries ∧ ∃pre x post a,xs=pre++x::post ∧ boot.run S A keys pre=some a ∧
        e∉a.endpoint.daemon.intents.entries ∧ Admitting S A a x e := by
  intro boot
  have hboot : Kept S keys resolver boot := kept_boot S keys resolver ledger disk token
  obtain ⟨s,hrun,-⟩ := never_ends (fun s x (h : s.Sound S keys) => h.step A x) boot hboot.sound xs
  refine ⟨s,(boot.run_eq_partial xs).trans hrun,?_⟩
  intro e he
  obtain ⟨pre,x,post,a,hxs,hpre,hnew,hadm⟩ := intent_came hboot.sound hrun List.not_mem_nil he
  have ha := invariant (fun s x s' (h : Kept S keys resolver s) hx => h.next hx) hpre hboot
  obtain ⟨hpending,hresource,-⟩ := hadm.entry
  rw [ha.resolver] at hresource
  exact ⟨hpending,hresource,pre,x,post,a,hxs,(boot.run_eq_partial pre).trans hpre,hnew,hadm⟩

/-- An intent leaves the table by a refusal alone, of its id, in a sealed envelope of a bound session. The
certificate of the sender has the approver role, and was attested by a binding earlier in the run. -/
theorem intent_withdrawal (xs ys : List Tick) :
    let boot := Controlled.boot S keys resolver ledger disk token
    ∃s s',boot.run S A keys xs=some s ∧ boot.run S A keys (xs++ys)=some s' ∧
      ∀e∈s.endpoint.daemon.intents.entries,e∉s'.endpoint.daemon.intents.entries →
        ∃pre x post a pkt plain out session env refusal cert,ys=pre++x::post ∧ boot.run S A keys (xs++pre)=some a ∧
          Refusing S A a x e.intentId pkt plain out session env refusal cert ∧
          ∃pre' y post' a' wire pkt' plain' sig out' session' peer,xs++pre=pre'++.input y::post' ∧
            boot.run S A keys pre'=some a' ∧
            Attests S A keys a'.endpoint y (env.sender,wire) cert pkt' plain' sig out' session' peer := by
  intro boot
  have hboot : boot.Sound S keys := sound_boot S keys resolver ledger disk token
  obtain ⟨s,hrun,hs⟩ := never_ends (fun s x (h : s.Sound S keys) => h.step A x) boot hboot xs
  obtain ⟨s',hrun',-⟩ := never_ends (fun s x (h : s.Sound S keys) => h.step A x) s hs ys
  have hsplit : ∀pre,PartialRun.run (fun s x => s.step S A keys x) boot (xs++pre)=
      PartialRun.run (fun s x => s.step S A keys x) s pre := by
    intro pre
    rw [PartialRun.run_append,hrun,Option.bind_some]
  refine ⟨s,s',(boot.run_eq_partial xs).trans hrun,(boot.run_eq_partial _).trans ((hsplit ys).trans hrun'),?_⟩
  intro e he hgone
  obtain ⟨pre,x,post,a,pkt,plain,out,session,env,refusal,cert,hys,hpre,hr⟩ := intent_left hs hrun' he hgone
  have hreach := (hsplit pre).trans hpre
  obtain ⟨⟨k,wire⟩,hkw,hkey,hparse⟩ := known_of_certForSender hr.refuses.known
  obtain ⟨pre',y,post',a',hxs,hpre',hbinding⟩ := cert_came hboot hreach List.not_mem_nil hkw
  obtain ⟨cert',pkt',plain',sig,out',session',peer,hatt⟩ := binding_attests hbinding
  have hcert : cert'=cert := Except.ok.inj (hatt.parses.symm.trans hparse)
  dsimp only at hkey
  rw [hcert,hkey] at hatt
  exact ⟨pre,x,post,a,pkt,plain,out,session,env,refusal,cert,hys,(boot.run_eq_partial _).trans hreach,hr,pre',y,post',a',
    wire,pkt',plain',sig,out',session',peer,hxs,(boot.run_eq_partial _).trans hpre',hatt⟩

end Provenance

end Bolina
