import Bolina.State.LedgerTorn

namespace Bolina.State

open RecordLog GuardedRun KeyedFold

/-- A relation between the records on disk and the caches that the ledger's
operations keep, as long as rewrites happen in `safe` caches only. -/
structure Carries (safe : Caches → Prop) (Q : List Record → Caches → Prop) : Prop where
  drop : ∀rs c nowMs,Q rs c → Q rs (c.dropExpired nowMs)
  image : ∀io rs c nowMs,Q rs c → safe c →
    Q ((c.dropExpired nowMs).imageRecords io) (c.dropExpired nowMs)
  write : ∀rs c r,Q rs c → ¬c.Holds r → Q (rs++[r]) (c.apply r)
  replay : ∀rs c,Q rs c → Q rs (Caches.replayAll rs)

/-- The relation survives a record that is on disk but whose sync has failed. -/
def Lossy (Q : List Record → Caches → Prop) : Prop := ∀rs c r,Q rs c → ¬c.Holds r → Q (rs++[r]) c

/-- A record written in full is also synced. -/
def Io.Syncs (io : Io) : Prop := io.write=none → io.sync=true

/-- The log is whole records and the beginning of at most one more, and `Q` relates
the whole ones to the caches. -/
def Carried (Q : List Record → Caches → Prop) (log : Bytes) (c : Caches) : Prop :=
  ∃rs p,log=ledgerFormat.encode rs++p ∧ ledgerFormat.Torn p ∧ Q rs c

section Carry

variable {safe : Caches → Prop} {Q : List Record → Caches → Prop}

theorem carried_prune (hQ : Carries safe Q) (io : Io) (s : Store) (nowMs : UInt64)
    (hsafe : safe s.ledger.toCaches) (h : Carried Q s.disk.log s.ledger.toCaches) :
    Carried Q (s.pruneExpired io nowMs).2.disk.log (s.pruneExpired io nowMs).2.ledger.toCaches := by
  obtain ⟨rs,p,hl,hp,hq⟩ := h
  have replaced : ∀file,Carried Q
      ((s.dropped nowMs).replaced ((s.ledger.dropExpired nowMs).image io) file).disk.log
      ((s.dropped nowMs).replaced ((s.ledger.dropExpired nowMs).image io) file).ledger.toCaches :=
    fun _ => ⟨_,[],(List.append_nil _).symm,ledgerFormat.torn_nil,hQ.image io rs _ nowMs hq hsafe⟩
  obtain ⟨he,_⟩|⟨he,_,_⟩|⟨he,_,_⟩ := pruneExpired_cases io s nowMs
  · rw [he]
    exact ⟨rs,p,hl,hp,hq⟩
  · rw [he]
    exact ⟨rs,p,hl,hp,hq⟩
  · rw [he]
    obtain ⟨temp,hw⟩|⟨e,hw⟩|⟨_,hw⟩ :=
      rewrite_cases io (s.dropped nowMs) ((s.ledger.dropExpired nowMs).image io)
    · rw [hw]
      exact ⟨rs,p,hl,hp,hQ.drop rs _ nowMs hq⟩
    · rw [hw]
      exact replaced none
    · rw [hw]
      exact replaced (some 0)

/-- An append at the end of a whole log, however far it gets. -/
theorem carried_logRecord (hQ : Carries safe Q) (io : Io) (s : Store) (r : Record)
    (hend : ∀pos,s.ledger.file=some pos → pos=s.disk.log.length ∧ ∃rs,s.disk.log=ledgerFormat.encode rs)
    (hr : ¬s.ledger.Holds r) (hlost : io.Syncs ∨ Lossy Q)
    (h : Carried Q s.disk.log s.ledger.toCaches) :
    Carried Q (s.logRecord io r).2.disk.log (s.logRecord io r).2.ledger.toCaches := by
  obtain ⟨rs,p,hl,hp,hq⟩ := h
  have whole : ∀pos,s.ledger.file=some pos →
      pos=s.disk.log.length ∧ s.disk.log=ledgerFormat.encode rs := by
    intro pos hf
    obtain ⟨hpos,rs',hrs'⟩ := hend pos hf
    obtain ⟨rfl,rfl⟩ := records_unique rs rs' p hp (by rw [← hl,hrs'])
    exact ⟨hpos,hrs'⟩
  obtain ⟨he,_⟩|⟨pos,put,_,hf,he,hput⟩|⟨pos,_,hf,_,he⟩ := logRecord_cases io s r
  · rw [he]
    exact ⟨rs,p,hl,hp,hq⟩
  · obtain ⟨rfl,hlog⟩ := whole pos hf
    have hdisk : (s.put s.disk.log.length put).disk.log=ledgerFormat.encode rs++put := by
      simp [Store.put,hlog]
    rw [he,hdisk]
    cases hput with
    | inl hfull =>
      obtain ⟨rfl,hw,hs⟩ := hfull
      cases hlost with
      | inl hsync =>
        rw [hsync hw] at hs
        cases hs
      | inr hlossy =>
        refine ⟨rs++[r],[],?_,ledgerFormat.torn_nil,hlossy rs _ r hq hr⟩
        rw [ledgerFormat.encode_concat,List.append_nil]
        rfl
    | inr hcut => exact ⟨rs,put,rfl,ledgerFormat.torn_of_prefix r put hcut.1 hcut.2.1,hq⟩
  · obtain ⟨rfl,hlog⟩ := whole pos hf
    rw [he]
    refine ⟨rs++[r],[],?_,ledgerFormat.torn_nil,hQ.write rs _ r hq hr⟩
    simp only [Store.logged,writeAt_end,ledgerFormat.encode_concat,List.append_nil]
    rw [hlog]
    rfl

/-- One call. -/
theorem carried_run (hQ : Carries safe Q) (io : Io) (s : Store) (call : Call)
    (hwhole : WritesWhole s (io,call)) (hlost : io.Syncs ∨ Lossy Q)
    (hsafe : ∀nowMs,call.Rewrites s.ledger.toCaches nowMs → safe s.ledger.toCaches)
    (h : Carried Q s.disk.log s.ledger.toCaches) :
    Carried Q (call.run io s).2.disk.log (call.run io s).2.ledger.toCaches := by
  apply @run_preserves (fun s => Carried Q s.disk.log s.ledger.toCaches) io s call h
  · intro nowMs hrw
    exact carried_prune hQ io s nowMs (hsafe nowMs hrw) h
  · intro r hw
    exact carried_logRecord hQ io s r (fun pos hf => hwhole.direct r pos hw hf) hw.2.1 hlost h
  · intro nowMs r hw hok
    have hprune := carried_prune hQ io s nowMs (hsafe nowMs hw.1) h
    obtain ⟨_,hrep,hpe⟩ := pruneExpired_ok io s nowMs hw.1.1 hok
    have himg := hwhole.after nowMs r hw hrep
    apply carried_logRecord hQ io _ r ?_ ?_ hlost hprune
    · intro pos hf
      rw [hpe] at hf ⊢
      cases hf
      exact ⟨by simp [Store.replaced,himg],[],himg⟩
    · rw [hpe]
      exact dropExpired_holds _ nowMs r (rewrites_fresh hw)

/-- The log of a node, related to the caches of its handle while it has one. -/
def Node.Carried (Q : List Record → Caches → Prop) (n : Node) : Prop :=
  ∃c,State.Carried Q n.disk.log c ∧ ∀l,n.ledger=some l → l.toCaches=c

theorem carried_reopened (hQ : Carries safe Q) (io : Io) (d : Disk) (c : Caches)
    (h : Carried Q d.log c) : (Node.reopened io d).Carried Q := by
  obtain ⟨rs,p,hl,hp,hq⟩ := h
  obtain ⟨e,d',he,hd'⟩|he := reopen_cases io d rs p hl hp
  · rw [Node.reopened,he]
    refine ⟨c,⟨rs,p,hd'.trans hl,hp,hq⟩,?_⟩
    intro l hn
    cases hn
  · rw [Node.reopened,he]
    refine ⟨Caches.replayAll rs,⟨rs,p,hl,hp,hQ.replay rs c hq⟩,?_⟩
    intro l hn
    cases hn
    rfl

/-- What a step of the node has to keep to. -/
structure Tidy (safe : Caches → Prop) (lossy : Prop) (n : Node) (x : Io × Op) : Prop where
  whole : ∀c l,x.2=.call c → n.ledger=some l → WritesWhole ⟨l,n.disk⟩ (x.1,c)
  safe : ∀c l nowMs,x.2=.call c → n.ledger=some l → c.Rewrites l.toCaches nowMs → safe l.toCaches
  syncs : x.1.Syncs ∨ lossy

theorem carried_step (hQ : Carries safe Q) (n : Node) (x : Io × Op)
    (hx : Tidy safe (Lossy Q) n x) (h : n.Carried Q) : (n.step x).Carried Q := by
  obtain ⟨io,op⟩ := x
  obtain ⟨c,hc,hl⟩ := h
  cases op with
  | restart => exact carried_reopened hQ io n.disk c hc
  | call call =>
    cases hn : n.ledger with
    | none =>
      have hstep : n.step (io,.call call)=n := by simp [Node.step,hn]
      rw [hstep]
      exact ⟨c,hc,hl⟩
    | some l =>
      have hstep : n.step (io,.call call)=(call.run io ⟨l,n.disk⟩).2.node := by simp [Node.step,hn]
      have hlc := hl l hn
      subst hlc
      rw [hstep]
      refine ⟨_,carried_run hQ io ⟨l,n.disk⟩ call (hx.whole call l rfl hn) hx.syncs
        (fun nowMs => hx.safe call l nowMs rfl hn) hc,?_⟩
      intro l' hl'
      cases hl'
      rfl

theorem carried_steps (hQ : Carries safe Q) (n : Node) (ops : List (Io × Op))
    (hops : Meets Node.step (Tidy safe (Lossy Q)) n ops) (h : n.Carried Q) :
    (ops.foldl Node.step n).Carried Q :=
  invariant (fun n x hx hn => carried_step hQ n x hx hn) n ops hops h

end Carry

/-- Every key of `K` is revoked, and every revoked key has its record in the log. -/
def Revocations (K : SigPubkey → Prop) (rs : List Record) (c : Caches) : Prop :=
  (∀pk,K pk → pk∈c.revoked) ∧ ∀pk∈c.revoked,∃certExpiry,Record.revoke pk certExpiry∈rs

theorem mem_replayAll_revoked (rs : List Record) (pk : SigPubkey) :
    pk∈(Caches.replayAll rs).revoked ↔ ∃certExpiry,Record.revoke pk certExpiry∈rs := by
  induction rs using List.reverseRecOn with
  | nil => simp [Caches.replayAll,Caches.empty]
  | append_singleton rs r ih =>
    rw [replayAll_snoc]
    cases r with
    | commit id expiry => simpa [Caches.replay] using ih
    | published id => simpa [Caches.replay] using ih
    | firstReceipt id time => simpa [Caches.replay] using ih
    | revoke q certExpiry =>
      simp only [Caches.replay,AList.mem_insert,ih,List.mem_append,List.mem_singleton,
        Record.revoke.injEq]
      constructor
      · intro h
        cases h with
        | inl he => exact ⟨certExpiry,Or.inr ⟨he,rfl⟩⟩
        | inr hm =>
          obtain ⟨e,he⟩ := hm
          exact ⟨e,Or.inl he⟩
      · intro h
        obtain ⟨e,he|⟨he,_⟩⟩ := h
        · exact Or.inr ⟨e,he⟩
        · exact Or.inl he

theorem mem_imageRecords_revoke (io : Io) (c : Caches) (pk : SigPubkey) (h : pk∈c.revoked) :
    ∃certExpiry,Record.revoke pk certExpiry∈c.imageRecords io := by
  obtain ⟨e,he⟩ := List.mem_keys.mp h
  refine ⟨e,?_⟩
  have hmem : (⟨pk,e⟩ : Σ_ : SigPubkey,UInt64)∈io.order c.revoked := (io.orderPerm c.revoked).mem_iff.mpr he
  simp only [Caches.imageRecords,List.mem_append,List.mem_map]
  exact Or.inl (Or.inr ⟨_,hmem,rfl⟩)

theorem revocations_carries (K : SigPubkey → Prop) : Carries (fun _ => True) (Revocations K) where
  drop rs c nowMs h := h
  image io rs c nowMs h _ := ⟨h.1,fun pk hpk => mem_imageRecords_revoke io _ pk hpk⟩
  write rs c r h _ := by
    have hold : ∀pk∈c.revoked,∃e,Record.revoke pk e∈rs++[r] := by
      intro pk hpk
      obtain ⟨e,he⟩ := h.2 pk hpk
      exact ⟨e,List.mem_append_left _ he⟩
    cases r with
    | commit id expiry => exact ⟨h.1,hold⟩
    | published id => exact ⟨h.1,hold⟩
    | firstReceipt id time => exact ⟨h.1,hold⟩
    | revoke q certExpiry =>
      constructor
      · intro pk hpk
        exact (AList.mem_insert _).mpr (Or.inr (h.1 pk hpk))
      · intro pk hpk
        cases (AList.mem_insert _).mp hpk with
        | inl he => exact ⟨certExpiry,by simp [he]⟩
        | inr hm => exact hold pk hm
  replay rs c h := by
    constructor
    · intro pk hpk
      exact (mem_replayAll_revoked rs pk).mpr (h.2 pk (h.1 pk hpk))
    · intro pk hpk
      exact (mem_replayAll_revoked rs pk).mp hpk

theorem revocations_lossy (K : SigPubkey → Prop) : Lossy (Revocations K) := by
  intro rs c r h _
  refine ⟨h.1,?_⟩
  intro pk hpk
  obtain ⟨e,he⟩ := h.2 pk hpk
  exact ⟨e,List.mem_append_left _ he⟩

/-- A successful call has its effect in the caches. -/
theorem run_ok_holds (io : Io) (s : Store) (call : Call) (r : Record) (hr : call.record=some r)
    (hok : (call.run io s).1=.ok ()) : (call.run io s).2.ledger.Holds r := by
  have logged : ∀(s : Store) (r : Record),(s.logRecord io r).1=.ok () →
      (s.logRecord io r).2.ledger.Holds r := by
    intro s r h
    obtain ⟨pos,_,_,_,hl⟩ := logRecord_ok io s r h
    rw [hl]
    cases r <;> simp [Store.logged,Caches.apply,Caches.Holds]
  obtain ⟨res,h,hh⟩|⟨nowMs,res,_,h,hp⟩|⟨r',hw,h⟩|⟨nowMs,r',hw,_,h⟩ := run_cases io s call
  · rw [h] at hok ⊢
    exact hh hok r hr
  · rw [h] at hok
    rw [(hp hok).1] at hr
    cases hr
  · obtain rfl : r'=r := Option.some.inj (hw.1.symm.trans hr)
    rw [h] at hok ⊢
    exact logged s r' hok
  · obtain rfl : r'=r := Option.some.inj (hw.2.1.symm.trans hr)
    rw [h] at hok ⊢
    exact logged _ r' hok

/-- What a call that has returned `Ok` adds to the relation is carried to the end of
the history. -/
theorem carried_after_ok {safe : Caches → Prop} {Q Q' : List Record → Caches → Prop}
    {guard : Node → Io × Op → Prop} (hQ : Carries safe Q) (hQ' : Carries safe Q')
    (hguard : ∀n x,guard n x → Tidy safe (Lossy Q) n x)
    (hguard' : ∀n x,guard n x → Tidy safe (Lossy Q') n x) (n₀ : Node) (hstart : n₀.Carried Q)
    (before after : List (Io × Op)) (io : Io) (call : Call) (r : Record) (hr : call.record=some r)
    (hops : Meets Node.step guard n₀ (before++(io,.call call)::after)) (l : GrantLedger)
    (hl : (before.foldl Node.step n₀).ledger=some l)
    (hok : (call.run io ⟨l,(before.foldl Node.step n₀).disk⟩).1=.ok ())
    (hgain : ∀rs c,Q rs c → c.Holds r → Q' rs c) :
    ((before++(io,.call call)::after).foldl Node.step n₀).Carried Q' := by
  obtain ⟨hbefore,hcall,hafter⟩ := (meets_append _ _ _).mp hops
  have hmid := carried_steps hQ _ before (meets_mono hguard _ _ hbefore) hstart
  obtain ⟨c,⟨rs,p,hlog,hp,hq⟩,hc⟩ := carried_step hQ _ _ (hguard _ _ hcall) hmid
  have hhold := run_ok_holds io ⟨l,_⟩ call r hr hok
  have hcl := hc _ (by rw [Node.step,hl]; rfl)
  rw [hcl] at hhold
  have hafterCall : (Node.step (before.foldl Node.step n₀) (io,.call call)).Carried Q' :=
    ⟨c,⟨rs,p,hlog,hp,hgain rs c hq hhold⟩,hc⟩
  rw [List.foldl_append,List.foldl_cons]
  exact carried_steps hQ' _ after (meets_mono hguard' _ _ hafter) hafterCall

/-- Every append lands at the end of a whole log. -/
abbrev WritesTidily : Node → Io × Op → Prop := Tidy (fun _ => True) True

theorem tidy_lossy {safe : Caches → Prop} {Q : List Record → Caches → Prop} (hQ : Lossy Q)
    (n : Node) (x : Io × Op) (h : Tidy safe True n x) : Tidy safe (Lossy Q) n x :=
  ⟨h.whole,h.safe,Or.inr hQ⟩

/-- A committed revocation is permanent: it outlives everything that happens to the
ledger afterwards, as long as every append lands at the end of a whole log. -/
theorem revocation_permanent (io₀ : Io) (d : Disk) (rs : List Record) (p : Bytes)
    (hd : d.log=ledgerFormat.encode rs++p) (hp : ledgerFormat.Torn p) (before after : List (Io × Op))
    (io : Io) (pk : SigPubkey) (certExpiryMs : UInt64) (l : GrantLedger)
    (hops : Meets Node.step WritesTidily (Node.reopened io₀ d)
      (before++(io,.call (.commitRevocation pk certExpiryMs))::after))
    (hl : (before.foldl Node.step (Node.reopened io₀ d)).ledger=some l)
    (hok : (Store.commitRevocation io ⟨l,(before.foldl Node.step (Node.reopened io₀ d)).disk⟩ pk
      certExpiryMs).1=.ok ()) :
    let n := (before++(io,.call (.commitRevocation pk certExpiryMs))::after).foldl Node.step
      (Node.reopened io₀ d)
    (∀l',n.ledger=some l' → l'.isRevoked pk=true) ∧
    ∀io',io'.Opens → ∃recovery l' d',reopen io' n.disk=(.ok (recovery,l'),d') ∧ l'.isRevoked pk=true := by
  intro n
  have hstart : (Node.reopened io₀ d).Carried (Revocations fun _ => False) := by
    apply carried_reopened (revocations_carries _) io₀ d (Caches.replayAll rs)
    exact ⟨rs,p,hd,hp,fun _ h => h.elim,fun pk hpk => (mem_replayAll_revoked rs pk).mp hpk⟩
  -- the call has returned Ok, so from there on the key is one of those that stay revoked
  have hgain : ∀rs c,Revocations (fun _ => False) rs c → c.Holds (.revoke pk certExpiryMs) →
      Revocations (fun q => q=pk) rs c := by
    intro rs c h hh
    refine ⟨?_,h.2⟩
    intro q hq
    rw [hq]
    exact hh
  have hend := carried_after_ok (revocations_carries _) (revocations_carries fun q => q=pk)
    (tidy_lossy (revocations_lossy _)) (tidy_lossy (revocations_lossy _)) _ hstart before after io
    (.commitRevocation pk certExpiryMs) _ rfl hops l hl hok hgain
  obtain ⟨c,⟨rs',p',hlog,htorn,hq⟩,hc⟩ := hend
  constructor
  · intro l' hl'
    have hcl := hc l' hl'
    simp only [Caches.isRevoked,decide_eq_true_eq]
    rw [hcl]
    exact hq.1 pk rfl
  · intro io' hio'
    refine ⟨_,_,_,reopen_of_records io' hio' n.disk rs' p' hlog htorn,?_⟩
    simp only [Caches.isRevoked,decide_eq_true_eq]
    exact (mem_replayAll_revoked rs' pk).mpr (hq.2 pk (hq.1 pk rfl))

theorem tidy_append {safe : Caches → Prop} {lossy : Prop} (n : Node) (io : Io) (call : Call)
    (rs : List Record) (hs : io.Syncs) (hp : ∀nowMs,call≠.pruneExpired nowMs)
    (hroom : ∀l∈n.ledger,l.consumed.keys.length < maxLive) (hlog : n.disk.log=ledgerFormat.encode rs)
    (hf : ∀l∈n.ledger,l.file=some n.disk.log.length) : Tidy safe lossy n (io,.call call) where
  whole c l hc hl := by
    cases hc
    exact writesWhole_append ⟨l,n.disk⟩ io call rs
      (not_rewrites_of_room _ _ hp (hroom l hl)) hlog (hf l hl)
  safe c l nowMs hc hl h := by
    cases hc
    exact absurd h (not_rewrites_of_room _ _ hp (hroom l hl) nowMs)
  syncs := Or.inl hs

theorem tidy_restart {safe : Caches → Prop} {lossy : Prop} (n : Node) (io : Io) (hs : io.Syncs) :
    Tidy safe lossy n (io,.restart) where
  whole c l hc := by cases hc
  safe c l nowMs hc := by cases hc
  syncs := Or.inl hs

theorem Io.good_syncs : Io.good.Syncs := fun _ => rfl

def sampleAfter : List (Io × Op) :=
  [(Io.good,.call (.commitConsumed (sampleId 1) 50 10)),(Io.good,.restart)]

theorem revocation_permanent_sample :
    let n := ([]++(Io.good,Op.call (.commitRevocation (samplePk 7) 5))::sampleAfter).foldl Node.step
      (Node.reopened Io.good ⟨[],none,[]⟩)
    (∀l',n.ledger=some l' → l'.isRevoked (samplePk 7)=true) ∧
    ∀io',io'.Opens → ∃recovery l' d',reopen io' n.disk=(.ok (recovery,l'),d') ∧
      l'.isRevoked (samplePk 7)=true := by
  have tidy : Meets Node.step WritesTidily (Node.reopened Io.good ⟨[],none,[]⟩)
      ([]++(Io.good,.call (.commitRevocation (samplePk 7) 5))::sampleAfter) := by
    refine ⟨?_,?_,?_,trivial⟩
    · exact tidy_append _ _ _ [] Io.good_syncs (by simp) (by decide) (by decide) (by decide)
    · exact tidy_append _ _ _ [.revoke (samplePk 7) 5] Io.good_syncs (by simp) (by decide)
        (by decide) (by decide)
    · exact tidy_restart _ _ Io.good_syncs
  exact revocation_permanent Io.good ⟨[],none,[]⟩ [] [] rfl ledgerFormat.torn_nil [] sampleAfter
    Io.good (samplePk 7) 5 (Caches.empty.recovered ⟨[],none,[]⟩) tidy rfl rfl

/-- The prune keeps the revocation but leaves the cursor at the start of the file:
the commit after it goes over the revocation record, and a restart has lost it. -/
theorem revocation_overwritten_after_prune :
    let s₀ : Store := ⟨Caches.empty.recovered ⟨[],none,[]⟩,⟨[],none,[]⟩⟩
    let s₁ := (s₀.commitRevocation Io.good (samplePk 1) 5).2
    let s₂ := (s₁.commitConsumed Io.good (sampleId 2) 50 10).2
    let s₃ := (s₂.pruneExpired Io.good 60).2
    let s₄ := (s₃.commitConsumed Io.good (sampleId 3) 90 60).2
    reopen Io.good ⟨[],none,[]⟩=(.ok (Caches.empty.recovery,s₀.ledger),s₀.disk) ∧
    (s₀.commitRevocation Io.good (samplePk 1) 5).1=.ok () ∧
    (s₃.commitConsumed Io.good (sampleId 3) 90 60).1=.ok () ∧ s₄.ledger.isRevoked (samplePk 1)=true ∧
    ∃recovery l,(reopen Io.good s₄.disk).1=.ok (recovery,l) ∧ l.isRevoked (samplePk 1)=false := by
  intro s₀ s₁ s₂ s₃ s₄
  have hlog : s₄.disk.log=ledgerFormat.encode [.commit (sampleId 3) 90]++
      (Record.revoke (samplePk 1) 5).bytes.drop 25 := by decide
  have htorn : ledgerFormat.Torn ((Record.revoke (samplePk 1) 5).bytes.drop 25) :=
    Or.inr ⟨1,((Record.revoke (samplePk 1) 5).bytes.drop 26),25,by decide,rfl,by decide⟩
  exact ⟨rfl,by decide,by decide,by decide,_,_,
    congrArg Prod.fst (reopen_of_records Io.good Io.good_opens s₄.disk _ _ hlog htorn),by decide⟩

end Bolina.State
