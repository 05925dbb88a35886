import Bolina.State.IntentLife
import Bolina.Transport.Dispatch

namespace Bolina.Transport

open Codec Intent

/-- A request that the resolver and the table accept, with its canonical resource. -/
structure Admissible (r : Resolver) (t : Table) (intentId : FixedBytes 16) (resourceId canonical : Bytes) :
    Prop where
  resolves : r.resolve resourceId=.ok canonical
  fits : canonical.length ≤ maxResource
  takes : t.Takes intentId canonical

/-- The entry of an accepted request. -/
def admittedEntry (intentId : FixedBytes 16) (canonical : Bytes) (h : canonical.length ≤ maxResource)
    (nowMs : UInt64) : Entry :=
  admitted intentId (fixed 256 canonical) canonical.length h nowMs

theorem fixed_take (n : Nat) (bs : Bytes) (h : bs.length ≤ n) : (fixed n bs).toList.take bs.length=bs := by
  show ((bs++List.replicate n 0).take n).take bs.length=bs
  rw [List.take_take,Nat.min_eq_left h,List.take_left]

section Admission

variable {r : Resolver} {t : Table} {intentId : FixedBytes 16} {resourceId canonical : Bytes}
variable (nowMs : UInt64)

theorem resolveAndAdmit_of_admissible (h : Admissible r t intentId resourceId canonical) :
    (r.resolveAndAdmit t intentId resourceId nowMs).1=.ok () ∧
      (r.resolveAndAdmit t intentId resourceId nowMs).2.entries=
        t.entries++[admittedEntry intentId canonical h.fits nowMs] := by
  have hfits : ¬maxResource < canonical.length := Nat.not_lt.mpr h.fits
  have htakes : t.Takes intentId ((fixed 256 canonical).toList.take canonical.length) := by
    rw [fixed_take 256 canonical h.fits]
    exact h.takes
  obtain ⟨hok,hentries⟩ :=
    admit_of_takes t intentId (fixed 256 canonical) canonical.length h.fits nowMs htakes
  rw [Resolver.resolveAndAdmit,h.resolves]
  simp only [dif_neg hfits]
  cases ha : t.admit intentId (fixed 256 canonical) canonical.length h.fits nowMs with
  | mk res t' =>
    rw [ha] at hok hentries
    cases res with
    | error e => cases hok
    | ok _ => exact ⟨rfl,hentries⟩

/-- A refused request leaves the table. -/
theorem resolveAndAdmit_of_not_admissible (h : ∀canonical,¬Admissible r t intentId resourceId canonical) :
    ∃e,r.resolveAndAdmit t intentId resourceId nowMs=(.error e,t) := by
  rw [Resolver.resolveAndAdmit]
  cases hr : r.resolve resourceId with
  | error e => exact ⟨e,rfl⟩
  | ok canonical =>
    by_cases hfits : maxResource < canonical.length
    · exact ⟨.MalformedCanonical,dif_pos hfits⟩
    · have hle : canonical.length ≤ maxResource := Nat.le_of_not_lt hfits
      have hnot : ¬t.Takes intentId ((fixed 256 canonical).toList.take canonical.length) := by
        intro htakes
        rw [fixed_take 256 canonical hle] at htakes
        exact h canonical ⟨hr,hle,htakes⟩
      obtain ⟨e,he⟩ := admit_of_not_takes t intentId (fixed 256 canonical) canonical.length hle nowMs hnot
      refine ⟨.Intent e,?_⟩
      simp only [dif_neg hfits]
      rw [he]

end Admission

/-- The message is an envelope that its sender has signed. -/
structure Signed (K : Crypto) (envBytes : Bytes) (env : Envelope) : Prop where
  parses : parseEnvelope envBytes=.ok env
  verifies : verifyEnvelope K env=none

/-- A signed message has one envelope. -/
theorem Signed.unique {K : Crypto} {envBytes : Bytes} {env env' : Envelope} (h : Signed K envBytes env)
    (h' : Signed K envBytes env') : env=env' := by
  have hp := h.parses
  rw [h'.parses] at hp
  cases hp
  rfl

/-- The intent of a signed intent envelope with an id of full width. -/
def signedIntent (K : Crypto) (envBytes : Bytes) : Option (Envelope × Codec.Intent) :=
  match parseEnvelope envBytes with
  | .error _ => none
  | .ok env =>
    match verifyEnvelope K env with
    | some _ => none
    | none =>
      if env.bodyType≠bodyIntent then none
      else
        match parseIntent env.body with
        | .error _ => none
        | .ok i => if i.intentId.length≠lenIntentId then none else some (env,i)

theorem signedIntent_iff (K : Crypto) (envBytes : Bytes) (env : Envelope) (i : Codec.Intent) :
    signedIntent K envBytes=some (env,i) ↔ Signed K envBytes env ∧ env.bodyType=bodyIntent ∧
      parseIntent env.body=.ok i ∧ i.intentId.length=lenIntentId := by
  rw [signedIntent]
  constructor
  · intro h
    cases hp : parseEnvelope envBytes with
    | error e => simp [hp] at h
    | ok env' =>
      rw [hp] at h
      cases hv : verifyEnvelope K env' with
      | some e => simp [hv] at h
      | none =>
        simp only [hv] at h
        by_cases hb : env'.bodyType=bodyIntent
        · rw [if_neg (not_not.mpr hb)] at h
          cases hi : parseIntent env'.body with
          | error e => simp [hi] at h
          | ok i' =>
            rw [hi] at h
            simp only at h
            by_cases hw : i'.intentId.length=lenIntentId
            · rw [if_neg (not_not.mpr hw)] at h
              cases h
              exact ⟨⟨hp,hv⟩,hb,hi,hw⟩
            · rw [if_pos hw] at h
              cases h
        · rw [if_pos hb] at h
          cases h
  · intro h
    obtain ⟨hs,hb,hi,hw⟩ := h
    rw [hs.parses]
    simp only [hs.verifies]
    rw [if_neg (not_not.mpr hb),hi]
    exact if_neg (not_not.mpr hw)

section Messages

variable {σ : Type} (K : Crypto) (d : Dispatch) (envBytes : Bytes) (hooks : Hooks σ) (nowMs : UInt64) (s : σ)

/-- The message is an intent that is admitted to the table. -/
structure Proposes (env : Envelope) (i : Codec.Intent) (canonical : Bytes) : Prop where
  signed : Signed K envBytes env
  body : env.bodyType=bodyIntent
  parses : parseIntent env.body=.ok i
  width : i.intentId.length=lenIntentId
  admissible : Admissible d.resolver d.intentTable (fixed 16 i.intentId) i.resourceId canonical

/-- The message is a refusal by a sender whose certificate carries the approver role. -/
structure Refuses (env : Envelope) (refusal : Refusal) (cert : Cert) : Prop where
  signed : Signed K envBytes env
  body : env.bodyType=bodyRefusal
  parses : parseRefusal env.body=.ok refusal
  width : refusal.intentId.length=lenIntentId
  known : hooks.certForSender env.sender=some cert
  role : cert.roleBits&&&roleApprover≠0
  key : cert.sigPubkey=env.sender
  signature : verifySigned K domainRefusal refusal.tbs refusal.sig env.sender=true

/-- The sender record of an intent envelope. -/
def senderRecord (env : Envelope) (i : Codec.Intent) (h : i.action.length ≤ senderMaxAction) : SenderEntry :=
  ⟨fixed 16 i.intentId,fixed 32 (if env.sender.length=32 then env.sender else []),fixed 512 i.action,
    i.action.length,h⟩

/-- The dispatcher behind an admission, whatever the size of the action. -/
def Dispatch.admitted (d : Dispatch) (i : Codec.Intent) (nowMs : UInt64) : Dispatch :=
  { d with
    intentTable := (d.resolver.resolveAndAdmit d.intentTable (fixed 16 i.intentId) i.resourceId nowMs).2 }

def Dispatch.record (d : Dispatch) (r : SenderEntry) : Dispatch :=
  { d with senderTable := ⟨d.senderTable.entries++[r]⟩ }

/-- The dispatcher behind a refusal. -/
def Dispatch.withdrawn (d : Dispatch) (intentId : FixedBytes 16) : Dispatch :=
  { d with intentTable := (d.intentTable.applyRefusal intentId).2 }

variable {K d envBytes hooks nowMs s}

theorem dispatch_signed {env : Envelope} (h : Signed K envBytes env) :
    d.dispatch K envBytes hooks nowMs s=
      if env.bodyType=bodyIntent then ((d.dispatchIntent env nowMs).1,(d.dispatchIntent env nowMs).2,s)
      else if env.bodyType=bodyGrant then
        ((d.dispatchGrant K env hooks nowMs s).1,d,(d.dispatchGrant K env hooks nowMs s).2)
      else if env.bodyType=bodyRefusal then d.dispatchRefusal K env hooks s
      else if env.bodyType=bodyUtterance then (.ok .Utterance,d,s)
      else if env.bodyType=bodyEffect then (.ok .Effect,d,s)
      else if env.bodyType=bodyControl then (.ok .Control,d,s)
      else (.error (.err .UnsupportedBody),d,s) := by
  rw [Dispatch.dispatch,h.parses]
  simp only [h.verifies]

theorem dispatch_of_grant {env : Envelope} (hs : Signed K envBytes env) (hb : env.bodyType=bodyGrant) :
    d.dispatch K envBytes hooks nowMs s=
      ((d.dispatchGrant K env hooks nowMs s).1,d,(d.dispatchGrant K env hooks nowMs s).2) := by
  have hi : ¬bodyGrant=bodyIntent := by decide
  rw [dispatch_signed hs,hb,if_neg hi,if_pos rfl]

theorem Proposes.not_grant {env : Envelope} {i : Codec.Intent} {canonical : Bytes}
    (h : Proposes K d envBytes env i canonical) (env' : Envelope) (hs : Signed K envBytes env') :
    env'.bodyType≠bodyGrant := by
  rw [hs.unique h.signed,h.body]
  decide

theorem Refuses.not_grant {env : Envelope} {refusal : Refusal} {cert : Cert}
    (h : Refuses K envBytes hooks env refusal cert) (env' : Envelope) (hs : Signed K envBytes env') :
    env'.bodyType≠bodyGrant := by
  rw [hs.unique h.signed,h.body]
  decide

/-- How an intent that the table takes ends. -/
theorem dispatchIntent_of_admissible {env : Envelope} {i : Codec.Intent} {canonical : Bytes}
    (hp : parseIntent env.body=.ok i) (hw : i.intentId.length=lenIntentId)
    (ha : Admissible d.resolver d.intentTable (fixed 16 i.intentId) i.resourceId canonical) :
    d.dispatchIntent env nowMs=
      if h : i.action.length ≤ senderMaxAction then
        (.ok .IntentAdmitted,(d.admitted i nowMs).record (senderRecord env i h))
      else (.error (.err .ActionTooLarge),d.admitted i nowMs) := by
  obtain ⟨hok,_⟩ := resolveAndAdmit_of_admissible nowMs ha
  rw [Dispatch.dispatchIntent,hp]
  simp only [if_neg (not_not.mpr hw)]
  rw [Dispatch.admitted]
  cases hr : d.resolver.resolveAndAdmit d.intentTable (fixed 16 i.intentId) i.resourceId nowMs with
  | mk res t =>
    rw [hr] at hok
    cases res with
    | error e => cases hok
    | ok _ =>
      by_cases h : i.action.length ≤ senderMaxAction
      · have hl : ¬Dispatch.maxAction < i.action.length := Nat.not_lt.mpr h
        simp only [dif_neg hl,dif_pos h]
        rfl
      · have hl : Dispatch.maxAction < i.action.length := Nat.lt_of_not_le h
        simp only [dif_pos hl,dif_neg h]

theorem dispatch_of_proposes {env : Envelope} {i : Codec.Intent} {canonical : Bytes}
    (h : Proposes K d envBytes env i canonical) :
    d.dispatch K envBytes hooks nowMs s=
      if hl : i.action.length ≤ senderMaxAction then
        (.ok .IntentAdmitted,(d.admitted i nowMs).record (senderRecord env i hl),s)
      else (.error (.err .ActionTooLarge),d.admitted i nowMs,s) := by
  rw [dispatch_signed h.signed,if_pos h.body,dispatchIntent_of_admissible h.parses h.width h.admissible]
  by_cases hl : i.action.length ≤ senderMaxAction
  · simp only [dif_pos hl]
  · simp only [dif_neg hl]

/-- The pending entries behind an admission. -/
theorem admitted_pendingEntry {env : Envelope} {i : Codec.Intent} {canonical : Bytes}
    (h : Proposes K d envBytes env i canonical) (j : FixedBytes 16) :
    (d.admitted i nowMs).intentTable.pendingEntry j=
      if j=fixed 16 i.intentId then some (admittedEntry (fixed 16 i.intentId) canonical h.admissible.fits nowMs)
      else d.intentTable.pendingEntry j := by
  obtain ⟨_,hentries⟩ := resolveAndAdmit_of_admissible nowMs h.admissible
  exact pendingEntry_append d.intentTable (d.admitted i nowMs).intentTable
    (admittedEntry (fixed 16 i.intentId) canonical h.admissible.fits nowMs) rfl
    h.admissible.takes.free hentries j

theorem lookup_record (r : SenderEntry) (intentId : Bytes) :
    (d.record r).senderTable.lookup intentId=
      (d.senderTable.lookup intentId).or (if r.intentId.toList=intentId then some r else none) := by
  show (d.senderTable.entries++[r]).find? (fun e => e.intentId.toList==intentId)=_
  rw [List.find?_append,List.find?_singleton]
  by_cases h : r.intentId.toList=intentId
  · rw [if_pos h,if_pos (beq_iff_eq.mpr h)]
    rfl
  · rw [if_neg h,if_neg (fun hb => h (beq_iff_eq.mp hb))]
    rfl

/-- A refused intent leaves the tables; the error does not depend on the sender table. -/
theorem dispatchIntent_of_not_admissible {env : Envelope}
    (h : ∀i canonical,parseIntent env.body=.ok i → i.intentId.length=lenIntentId →
      ¬Admissible d.resolver d.intentTable (fixed 16 i.intentId) i.resourceId canonical) :
    ∃e,∀senderTable,{ d with senderTable }.dispatchIntent env nowMs=(.error (.err e),{ d with senderTable }) := by
  cases hp : parseIntent env.body with
  | error e =>
    refine ⟨.BadBody,fun _ => ?_⟩
    rw [Dispatch.dispatchIntent,hp]
  | ok i =>
    by_cases hw : i.intentId.length=lenIntentId
    · obtain ⟨e,he⟩ := resolveAndAdmit_of_not_admissible nowMs (fun c => h i c hp hw)
      refine ⟨.Resolve e,fun _ => ?_⟩
      rw [Dispatch.dispatchIntent,hp]
      simp only [if_neg (not_not.mpr hw)]
      rw [he]
    · refine ⟨.BadBody,fun _ => ?_⟩
      rw [Dispatch.dispatchIntent,hp]
      exact if_pos hw

theorem dispatch_of_refuses {env : Envelope} {refusal : Refusal} {cert : Cert}
    (h : Refuses K envBytes hooks env refusal cert) :
    d.dispatch K envBytes hooks nowMs s=
      (.ok .RefusalApplied,d.withdrawn (fixed 16 refusal.intentId),
        if d.intentTable.pendingEntry (fixed 16 refusal.intentId)=none then s
        else hooks.onRejected refusal.intentId s) := by
  have hi : ¬bodyRefusal=bodyIntent := by decide
  have hg : ¬bodyRefusal=bodyGrant := by decide
  have hv : verifySignedErr K domainRefusal refusal.tbs refusal.sig env.sender=none :=
    (verifySignedErr_eq_none _ _ _ _ _).mpr h.signature
  rw [dispatch_signed h.signed,h.body,if_neg hi,if_neg hg,if_pos rfl,Dispatch.dispatchRefusal,h.parses]
  simp only [h.known]
  rw [verifyRefusalThen,if_neg (not_not.mpr h.body),hv]
  simp only [if_neg h.role,if_neg (not_not.mpr h.key),if_neg (not_not.mpr h.width)]
  rw [Dispatch.withdrawn,Table.applyRefusal]
  cases hp : d.intentTable.pendingEntry (fixed 16 refusal.intentId) with
  | none =>
    rw [matchForGrant_of_none _ _ hp]
    rfl
  | some a =>
    obtain ⟨idx,hm,_⟩ := matchForGrant_of_pending _ _ a hp
    rw [hm]
    rfl

theorem dispatchRefusal_of_not_refuses {env : Envelope} (hs : Signed K envBytes env)
    (hb : env.bodyType=bodyRefusal) (h : ∀refusal cert,¬Refuses K envBytes hooks env refusal cert) :
    ∃e,∀d : Dispatch,d.dispatchRefusal K env hooks s=(.error (.err e),d,s) := by
  simp only [Dispatch.dispatchRefusal]
  cases hp : parseRefusal env.body with
  | error e => exact ⟨_,fun _ => rfl⟩
  | ok refusal =>
    cases hc : hooks.certForSender env.sender with
    | none => exact ⟨_,fun _ => rfl⟩
    | some cert =>
      simp only [verifyRefusalThen,if_neg (not_not.mpr hb)]
      cases hv : verifySignedErr K domainRefusal refusal.tbs refusal.sig env.sender with
      | some e => exact ⟨_,fun _ => rfl⟩
      | none =>
        have hsig := (verifySignedErr_eq_none _ _ _ _ _).mp hv
        by_cases hr : cert.roleBits&&&roleApprover=0
        · simp only [if_pos hr]
          exact ⟨_,fun _ => rfl⟩
        by_cases hk : cert.sigPubkey=env.sender
        · by_cases hw : refusal.intentId.length=lenIntentId
          · exact absurd ⟨hs,hb,hp,hw,hc,hr,hk,hsig⟩ (h refusal cert)
          · simp only [if_neg hr,if_neg (not_not.mpr hk),if_pos hw]
            exact ⟨_,fun _ => rfl⟩
        · simp only [if_neg hr,if_pos hk]
          exact ⟨_,fun _ => rfl⟩

theorem dispatch_of_not_signed (h : ∀env,¬Signed K envBytes env) :
    ∃e,(e=.BadEnvelope ∨ ∃v,e=.Verify v) ∧
      ∀d : Dispatch,d.dispatch K envBytes hooks nowMs s=(.error (.err e),d,s) := by
  cases hpe : parseEnvelope envBytes with
  | error e =>
    refine ⟨.BadEnvelope,Or.inl rfl,fun d => ?_⟩
    rw [Dispatch.dispatch,hpe]
  | ok env =>
    cases hv : verifyEnvelope K env with
    | none => exact absurd ⟨hpe,hv⟩ (h env)
    | some e =>
      refine ⟨.Verify e,Or.inr ⟨e,rfl⟩,fun d => ?_⟩
      rw [Dispatch.dispatch,hpe]
      simp only [hv]

/-- A message that is no admission, no refusal and no grant changes nothing, and its
outcome does not depend on the sender table: it is an error value or one of the three
that mean nothing to the tables. -/
theorem dispatch_of_other (hp : ∀env i canonical,¬Proposes K d envBytes env i canonical)
    (hr : ∀env refusal cert,¬Refuses K envBytes hooks env refusal cert)
    (hg : ∀env,Signed K envBytes env → env.bodyType≠bodyGrant) :
    ∃res,(∀senderTable,{ d with senderTable }.dispatch K envBytes hooks nowMs s=(res,{ d with senderTable },s)) ∧
      res≠.error .panic ∧ ∀o,res=.ok o → o=.Utterance ∨ o=.Effect ∨ o=.Control := by
  have herr : ∀e : DispatchError,∀res : Except (Abort DispatchError) Outcome,res=.error (.err e) →
      res≠.error .panic ∧ ∀o,res=.ok o → o=.Utterance ∨ o=.Effect ∨ o=.Control := by
    intro e res he
    rw [he]
    exact ⟨by simp,fun _ h => (nomatch h)⟩
  have hok : ∀o₁ : Outcome,∀res : Except (Abort DispatchError) Outcome,res=.ok o₁ →
      o₁=.Utterance ∨ o₁=.Effect ∨ o₁=.Control →
        res≠.error .panic ∧ ∀o,res=.ok o → o=.Utterance ∨ o=.Effect ∨ o=.Control := by
    intro o₁ res he h
    rw [he]
    refine ⟨by simp,fun o ho => ?_⟩
    cases ho
    exact h
  by_cases hs : ∃env,Signed K envBytes env
  · obtain ⟨env,hs⟩ := hs
    simp only [dispatch_signed hs,if_neg (hg env hs)]
    by_cases hi : env.bodyType=bodyIntent
    · obtain ⟨e,he⟩ := @dispatchIntent_of_not_admissible d nowMs env
        (fun i c hpi hw ha => hp env i c ⟨hs,hi,hpi,hw,ha⟩)
      simp only [if_pos hi,he]
      exact ⟨_,fun _ => rfl,herr e _ rfl⟩
    by_cases hf : env.bodyType=bodyRefusal
    · obtain ⟨e,he⟩ := @dispatchRefusal_of_not_refuses σ K envBytes hooks s env hs hf (hr env)
      simp only [if_neg hi,if_pos hf,he]
      exact ⟨_,fun _ => rfl,herr e _ rfl⟩
    simp only [if_neg hi,if_neg hf]
    split_ifs
    · exact ⟨_,fun _ => rfl,hok .Utterance _ rfl (Or.inl rfl)⟩
    · exact ⟨_,fun _ => rfl,hok .Effect _ rfl (Or.inr (Or.inl rfl))⟩
    · exact ⟨_,fun _ => rfl,hok .Control _ rfl (Or.inr (Or.inr rfl))⟩
    · exact ⟨_,fun _ => rfl,herr .UnsupportedBody _ rfl⟩
  · obtain ⟨e,_,he⟩ := @dispatch_of_not_signed σ K envBytes hooks nowMs s (fun env h => hs ⟨env,h⟩)
    exact ⟨_,fun _ => he _,herr e _ rfl⟩

variable (K d envBytes hooks)

/-- What a message can be. -/
inductive Kind : Prop where
  | grant (env : Envelope) (hs : Signed K envBytes env) (hb : env.bodyType=bodyGrant)
  | proposes (env : Envelope) (i : Codec.Intent) (canonical : Bytes)
      (h : Proposes K d envBytes env i canonical)
  | refuses (env : Envelope) (refusal : Refusal) (cert : Cert)
      (h : Refuses K envBytes hooks env refusal cert)
  | other (hp : ∀env i canonical,¬Proposes K d envBytes env i canonical)
      (hr : ∀env refusal cert,¬Refuses K envBytes hooks env refusal cert)
      (hg : ∀env,Signed K envBytes env → env.bodyType≠bodyGrant)

theorem kind : Kind K d envBytes hooks := by
  by_cases hg : ∃env,Signed K envBytes env ∧ env.bodyType=bodyGrant
  · obtain ⟨env,hs,hb⟩ := hg
    exact .grant env hs hb
  by_cases hp : ∃env i canonical,Proposes K d envBytes env i canonical
  · obtain ⟨env,i,canonical,hp⟩ := hp
    exact .proposes env i canonical hp
  by_cases hr : ∃env refusal cert,Refuses K envBytes hooks env refusal cert
  · obtain ⟨env,refusal,cert,hr⟩ := hr
    exact .refuses env refusal cert hr
  exact .other (fun env i canonical h => hp ⟨env,i,canonical,h⟩)
    (fun env refusal cert h => hr ⟨env,refusal,cert,h⟩) (fun env hs hb => hg ⟨env,hs,hb⟩)

variable {K d envBytes hooks}

/-- A message that is neither an admission nor an execution nor a refusal changes
nothing; its outcome is an error or one of the three that mean nothing to the tables. -/
theorem dispatch_of_idle (hp : ∀env i canonical,¬Proposes K d envBytes env i canonical)
    (hx : ∀grant,¬Executes K d envBytes hooks nowMs s grant)
    (hr : ∀env refusal cert,¬Refuses K envBytes hooks env refusal cert) :
    ∃res,d.dispatch K envBytes hooks nowMs s=(res,d,s) ∧
      ∀o,res=.ok o → o=.Utterance ∨ o=.Effect ∨ o=.Control := by
  cases kind K d envBytes hooks with
  | grant env hs hb =>
    obtain ⟨a,ha⟩ := dispatchGrant_of_not_executes env hs.parses hs.verifies hx
    rw [dispatch_of_grant hs hb,ha]
    exact ⟨_,rfl,fun _ h => (nomatch h)⟩
  | proposes env i canonical h => exact absurd h (hp env i canonical)
  | refuses env refusal cert h => exact absurd h (hr env refusal cert)
  | other hp hr hg =>
    obtain ⟨res,hres,_,ho⟩ := dispatch_of_other hp hr hg
    exact ⟨res,hres d.senderTable,ho⟩

/-- A dispatch panics in the expiry arithmetic of a grant that passes the checks before it. -/
theorem panics_of_dispatch (h : (d.dispatch K envBytes hooks nowMs s).1=.error .panic) :
    ∃env grant cert,hooks.certForSender env.sender=some cert ∧
      Panics K env grant (d.grantContext hooks s cert nowMs) := by
  cases kind K d envBytes hooks with
  | grant env hs hb =>
    rw [dispatch_of_grant hs hb,Dispatch.dispatchGrant] at h
    cases hp : parseGrant env.body with
    | error e => simp [hp] at h
    | ok grant =>
      rw [hp] at h
      cases hc : hooks.certForSender env.sender with
      | none => simp [hc] at h
      | some cert =>
        refine ⟨env,grant,cert,hc,?_⟩
        by_contra hn
        simp only [hc,verifyGrantThen_eq _ _ _ _ _ _ hn] at h
        cases he : codeError K env grant (d.grantContext hooks s cert nowMs) with
        | none => simp [he] at h
        | some e => simp [he] at h
  | proposes env i canonical hp =>
    rw [dispatch_of_proposes hp] at h
    split at h <;> cases h
  | refuses env refusal cert hr =>
    rw [dispatch_of_refuses hr] at h
    cases h
  | other hp hr hg =>
    obtain ⟨res,hres,hne,_⟩ := @dispatch_of_other σ K d envBytes hooks nowMs s hp hr hg
    have hd : d.dispatch K envBytes hooks nowMs s=(res,d,s) := hres d.senderTable
    rw [hd] at h
    exact absurd h hne

variable (K d envBytes hooks nowMs s)

/-- What a message can do. -/
inductive Happens : Prop where
  | proposes (env : Envelope) (i : Codec.Intent) (canonical : Bytes)
      (h : Proposes K d envBytes env i canonical)
  | executes (grant : Grant) (h : Executes K d envBytes hooks nowMs s grant)
  | refuses (env : Envelope) (refusal : Refusal) (cert : Cert)
      (h : Refuses K envBytes hooks env refusal cert)
  | idle (hp : ∀env i canonical,¬Proposes K d envBytes env i canonical)
      (hx : ∀grant,¬Executes K d envBytes hooks nowMs s grant)
      (hr : ∀env refusal cert,¬Refuses K envBytes hooks env refusal cert)

theorem happens : Happens K d envBytes hooks nowMs s := by
  by_cases hx : ∃grant,Executes K d envBytes hooks nowMs s grant
  · obtain ⟨grant,hx⟩ := hx
    exact .executes grant hx
  have hnot : ∀grant,¬Executes K d envBytes hooks nowMs s grant := fun grant h => hx ⟨grant,h⟩
  cases kind K d envBytes hooks with
  | grant env hs hb =>
    refine .idle ?_ hnot ?_
    · intro env' i canonical h
      have hbody := h.body
      rw [h.signed.unique hs,hb] at hbody
      cases hbody
    · intro env' refusal cert h
      have hbody := h.body
      rw [h.signed.unique hs,hb] at hbody
      cases hbody
  | proposes env i canonical h => exact .proposes env i canonical h
  | refuses env refusal cert h => exact .refuses env refusal cert h
  | other hp hr hg => exact .idle hp hnot hr

variable {K d envBytes hooks nowMs s}

/-- A call of one of the two callbacks that act. -/
inductive HookCall where
  | effect (grant : Grant)
  | rejected (intentId : Bytes)
  deriving DecidableEq

/-- The callbacks with a note of the calls of the two that act. -/
def Hooks.traced (hooks : Hooks σ) : Hooks (σ × List HookCall) where
  executeEffect g s := ((hooks.executeEffect g s.1).1,(hooks.executeEffect g s.1).2,s.2++[.effect g])
  certForSender := hooks.certForSender
  onRejected id s := (hooks.onRejected id s.1,s.2++[.rejected id])
  isRevoked s := hooks.isRevoked s.1
  alreadyConsumed s := hooks.alreadyConsumed s.1

theorem executes_traced (calls : List HookCall) (grant : Grant) :
    Executes K d envBytes hooks.traced nowMs (s,calls) grant ↔ Executes K d envBytes hooks nowMs s grant :=
  ⟨fun h => ⟨h.passes⟩,fun h => ⟨h.passes⟩⟩

theorem refuses_traced {env : Envelope} {refusal : Refusal} {cert : Cert} :
    Refuses K envBytes hooks.traced env refusal cert ↔ Refuses K envBytes hooks env refusal cert :=
  ⟨fun h => ⟨h.signed,h.body,h.parses,h.width,h.known,h.role,h.key,h.signature⟩,
    fun h => ⟨h.signed,h.body,h.parses,h.width,h.known,h.role,h.key,h.signature⟩⟩

end Messages

section Untouched

variable {σ : Type} (K : Crypto) (d : Dispatch) (envBytes : Bytes) (hooks : Hooks σ) (nowMs : UInt64) (s : σ)

/-- A dispatch with its callbacks noted. -/
def Dispatch.traced : Dispatched (σ × List HookCall) := d.dispatch K envBytes hooks.traced nowMs (s,[])

/-- The tables are as before, and neither acting callback was called. -/
structure Untouched : Prop where
  intents : (d.traced K envBytes hooks nowMs s).2.1.intentTable=d.intentTable
  senders : (d.traced K envBytes hooks nowMs s).2.1.senderTable=d.senderTable
  calls : (d.traced K envBytes hooks nowMs s).2.2.2=[]

variable {K d envBytes hooks nowMs s}

theorem untouched_of_eq {res : Except (Abort DispatchError) Outcome}
    (h : d.traced K envBytes hooks nowMs s=(res,d,(s,[]))) : Untouched K d envBytes hooks nowMs s := by
  constructor
  · rw [h]
  · rw [h]
  · rw [h]

/-- A message of no consequence. -/
theorem traced_of_idle (hp : ∀env i canonical,¬Proposes K d envBytes env i canonical)
    (hx : ∀grant,¬Executes K d envBytes hooks nowMs s grant)
    (hr : ∀env refusal cert,¬Refuses K envBytes hooks env refusal cert) :
    ∃res,d.traced K envBytes hooks nowMs s=(res,d,(s,[])) ∧
      ∀o,res=.ok o → o=.Utterance ∨ o=.Effect ∨ o=.Control := by
  apply dispatch_of_idle hp
  · exact fun grant h => hx grant ((executes_traced [] grant).mp h)
  · exact fun env refusal cert h => hr env refusal cert (refuses_traced.mp h)

theorem traced_of_executes {grant : Grant} (h : Executes K d envBytes hooks nowMs s grant) :
    d.traced K envBytes hooks nowMs s=
      (.ok (hooks.executeEffect grant s).1.outcome,d,(hooks.executeEffect grant s).2,[.effect grant]) :=
  dispatch_of_executes ((executes_traced [] grant).mpr h)

theorem traced_of_refuses {env : Envelope} {refusal : Refusal} {cert : Cert}
    (h : Refuses K envBytes hooks env refusal cert) :
    d.traced K envBytes hooks nowMs s=
      (.ok .RefusalApplied,d.withdrawn (fixed 16 refusal.intentId),
        if d.intentTable.pendingEntry (fixed 16 refusal.intentId)=none then (s,[])
        else (hooks.onRejected refusal.intentId s,[.rejected refusal.intentId])) :=
  dispatch_of_refuses (refuses_traced.mpr h)

end Untouched

/-- The dispatcher of a node with one resource, before any message. -/
def sampleDispatch : Dispatch where
  resolver := { Resolver.new sampleCrypto nodeKey with entries := [sampleResource] }
  intentTable := Table.new
  senderTable := SenderTable.new
  ownPubkey := nodeKey

/-- Callbacks of a caller that knows the peer and lets every effect fire. -/
def sampleHooks : Hooks Unit where
  executeEffect _ s := (.Fired,s)
  certForSender sender := if sender=peerKey then some sampleCert else none
  onRejected _ s := s
  isRevoked _ _ := false
  alreadyConsumed _ _ _ _ := false

/-- The sample dispatcher after the intent of the peer. -/
def pendingDispatch : Dispatch :=
  (sampleDispatch.dispatch sampleCrypto (encodeEnvelope intentEnvelope) sampleHooks 1000000 ()).2.1

/-- More signatures that the primitive verifies. -/
def signing (K : Crypto) (sigs : List (Bytes × Bytes × Bytes)) : Crypto :=
  { K with ed25519 := fun key msg sig => K.ed25519 key msg sig || decide ((key,msg,sig)∈sigs) }

end Bolina.Transport
