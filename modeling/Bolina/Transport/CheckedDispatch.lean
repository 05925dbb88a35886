import Bolina.Transport.CheckedVerify
import Bolina.Transport.DispatchStep

namespace Bolina.Checked

open BigEndian Panic Transport
open Codec (Crypto Envelope Grant Refusal Cert lenIntentId maxResource bodyIntent bodyGrant bodyRefusal bodyUtterance
  bodyEffect bodyControl domainRefusal roleApprover)
open Intent (Table Entry IntentError RefusalOutcome maxPending Apart apart_of_not_pendingFor)

def maxAliases : Nat := 64

section Resolve

variable (r : Resolver)

/-- An entry of the array of 32: its buffer and the length in use. One that is not declared is zeroed. -/
def entryAt (i : Nat) : Option (Bytes × Nat) :=
  if i < maxResources then some ((fixed idMax (r.entries.getD i [])).toList,(r.entries.getD i []).length) else none

/-- The aliases in use, of the array of 64. -/
def aliases : Option (List Alias) := if r.aliases.length ≤ maxAliases then some r.aliases else none

def aliasLoop (entryIdx : Nat) (proposed : Bytes) : List Alias → Option Bool
  | [] => some false
  | a::rest => do
    if a.entry=entryIdx ∧ a.bytes.length=proposed.length then
      if (← range (fixed idMax a.bytes).toList 0 a.bytes.length)=proposed then return true
      else aliasLoop entryIdx proposed rest
    else aliasLoop entryIdx proposed rest

def aliasHits (entryIdx : Nat) (proposed : Bytes) : Option Bool := do aliasLoop entryIdx proposed (← aliases r)

def entryHits (i : Nat) (proposed : Bytes) : Option Bool := do
  let (canonical,len) ← entryAt r i
  if len=proposed.length then
    if (← range canonical 0 len)=proposed then return true else aliasHits r i proposed
  else aliasHits r i proposed

def resolveLoop (proposed : Bytes) : List Nat → Option Nat → Option (Except ResolveError (Option Nat))
  | [],found => some (.ok found)
  | i::rest,found => do
    if ← entryHits r i proposed then
      match found with
      | some f => if f≠i then return .error .AmbiguousResource else resolveLoop proposed rest found
      | none => resolveLoop proposed rest (some i)
    else resolveLoop proposed rest found

def resolve (proposed : Bytes) : Option (Except ResolveError Bytes) := do
  match ← resolveLoop r proposed (List.range r.entries.length) none with
  | .error e => return .error e
  | .ok none => return .error .UnknownResource
  | .ok (some idx) =>
    let (canonical,len) ← entryAt r idx
    let c ← range canonical 0 len
    if (← range c 4 (4+fpHexLen))≠r.ownFp then return .error .ForeignExecutor else return .ok c

end Resolve

section Intents

/-- The loop that compares the resource of every live entry. -/
def holdsLoop (resource : Bytes) (resourceLen : Nat) : List Entry → Option Bool
  | [] => some false
  | e::rest => do
    if e.state=.Pending ∨ e.state=.Executing then
      let own ← range e.resourceId.toList 0 e.resourceLen
      if own=(← range resource 0 resourceLen) then return true else holdsLoop resource resourceLen rest
    else holdsLoop resource resourceLen rest

/-- The table with one more entry, of an id that has no pending entry yet. -/
def pushed (t : Table) (entry : Entry) (h : t.entries.any (Entry.pendingFor entry.intentId)=false) : Table where
  entries := t.entries++[entry]
  unique := by
    refine List.pairwise_append.mpr ⟨t.unique,List.pairwise_singleton _ _,fun a ha b hb => ?_⟩
    have hall : ∀e∈t.entries,e.pendingFor entry.intentId=false := by simpa using h
    rw [List.mem_singleton.mp hb]
    exact apart_of_not_pendingFor (hall a ha)

/-- The assertion on the length comes first. -/
def admitIntent (t : Table) (intentId : FixedBytes 16) (resource : FixedBytes 256) (resourceLen : Nat)
    (nowMs : UInt64) : Option (Except IntentError Unit × Table) := do
  if hlen : resourceLen ≤ maxResource then
    let entry : Entry := ⟨intentId,resource,resourceLen,hlen,.Pending,nowMs⟩
    if hdup : t.entries.any (Entry.pendingFor intentId)=true then return (.error .DuplicateIntentId,t)
    else if ← holdsLoop resource.toList resourceLen t.entries then return (.error .ResourceHeld,t)
    else if maxPending ≤ t.entries.length then return (.error .TableFull,t)
    else return (.ok (),pushed t entry (Bool.not_eq_true _ ▸ hdup))
  else none

def resolveAndAdmit (r : Resolver) (table : Table) (intentId : FixedBytes 16) (resourceId : Bytes)
    (nowMs : UInt64) : Option (Except ResolveError Unit × Table) := do
  match ← resolve r resourceId with
  | .error e => return (.error e,table)
  | .ok canonical =>
    if maxResource < canonical.length then return (.error .MalformedCanonical,table)
    else
      let buf ← exact (← copyTo (zeros 256) canonical 0 canonical.length) 256
      match ← admitIntent table intentId buf canonical.length nowMs with
      | (.error e,table') => return (.error (.Intent e),table')
      | (.ok _,table') => return (.ok (),table')

theorem rejected_ne_pending : Intent.State.Rejected≠.Pending := Intent.State.noConfusion

def applyRefusal (t : Table) (intentId : FixedBytes 16) : Option (RefusalOutcome × Table) := do
  match t.matchForGrant intentId with
  | some idx =>
    let _entry ← index t.entries idx
    return (.Rejected,(t.mark idx .Rejected rejected_ne_pending).compact)
  | none => return (.NoMatch,t)

end Intents

section Route

variable {σ : Type} (K : Crypto)

/-- The callbacks of the caller, of which two may panic. -/
structure Hooks (σ : Type) where
  executeEffect : Grant → σ → Option (EffectOutcome × σ)
  certForSender : Bytes → Option Cert
  onRejected : Bytes → σ → σ
  isRevoked : σ → Bytes → Bool
  alreadyConsumed : σ → Bytes → UInt64 → UInt64 → Option Bool

def verifyRefusalThen (env : Envelope) (refusal : Refusal) (approverCert : Cert) (intentTable : Table)
    (onRejected : Bytes → σ → σ) (s : σ) : Option (Except VerifyError Unit × Table × σ) := do
  if env.bodyType≠bodyRefusal then return (.error .BadEnvelopeBinding,intentTable,s)
  else
    match ← verifySignedErr K domainRefusal refusal.tbs refusal.sig env.sender with
    | some e => return (.error e,intentTable,s)
    | none =>
      if approverCert.roleBits&&&roleApprover=0 then return (.error .BadApproverCert,intentTable,s)
      else if approverCert.sigPubkey≠env.sender then return (.error .BadApproverCert,intentTable,s)
      else if refusal.intentId.length≠lenIntentId then return (.error .BadEnvelopeBinding,intentTable,s)
      else
        match ← applyRefusal intentTable (fixed 16 refusal.intentId) with
        | (.Rejected,table) => return (.ok (),table,onRejected refusal.intentId s)
        | (.NoMatch,table) => return (.ok (),table,s)

/-- The array of the sender stays zeroed for a key of another length. -/
def senderArray (sender : Bytes) : Option (FixedBytes 32) :=
  if sender.length=32 then copyArray 32 sender else some (fixed 32 [])

theorem action_fits {intent : Codec.Intent} (h : ¬Dispatch.maxAction < intent.action.length) :
    intent.action.length ≤ 512 :=
  Nat.le_of_not_lt h

def dispatchIntent (d : Dispatch) (env : Envelope) (nowMs : UInt64) :
    Option (Except DispatchError Outcome × Dispatch) := do
  match ← parseIntent env.body with
  | .error _ => return (.error .BadBody,d)
  | .ok intent =>
    if intent.intentId.length≠lenIntentId then return (.error .BadBody,d)
    else
      match ← resolveAndAdmit d.resolver d.intentTable (fixed 16 intent.intentId) intent.resourceId nowMs with
      | (.error e,intentTable) => return (.error (.Resolve e),{ d with intentTable })
      | (.ok _,intentTable) =>
        if h : Dispatch.maxAction < intent.action.length then
          return (.error .ActionTooLarge,{ d with intentTable })
        else
          let action ← exact (← copyTo (zeros 512) intent.action 0 intent.action.length) 512
          let sender ← senderArray env.sender
          let record : SenderEntry :=
            ⟨fixed 16 intent.intentId,sender,action,intent.action.length,action_fits h⟩
          return (.ok .IntentAdmitted,
            { d with intentTable,senderTable := ⟨d.senderTable.entries++[record]⟩ })

def grantContext (d : Dispatch) (hooks : Hooks σ) (s : σ) (senderCert : Cert) (nowMs : UInt64) : GrantContext where
  ownPubkey := d.ownPubkey
  approverCert := senderCert
  subjectCert := senderCert
  intentTable := d.intentTable
  senderTable := d.senderTable
  nowMs := nowMs
  firstReceiptMs := nowMs
  tMaxS := tMaxSDefault
  tRecvS := tRecvSDefault
  alreadyConsumed := hooks.alreadyConsumed s
  isRevoked := hooks.isRevoked s

def dispatchGrant (d : Dispatch) (env : Envelope) (hooks : Hooks σ) (nowMs : UInt64) (s : σ) :
    Option (Except DispatchError Outcome × σ) := do
  match ← parseGrant env.body with
  | .error _ => return (.error .BadBody,s)
  | .ok grant =>
    match hooks.certForSender env.sender with
    | none => return (.error .UnknownSender,s)
    | some senderCert =>
      match ← verifyGrantThen K env grant (grantContext d hooks s senderCert nowMs) hooks.executeEffect s with
      | (.error e,s') => return (.error (.Verify e),s')
      | (.ok outcome,s') => return (.ok outcome.outcome,s')

def dispatchRefusal (d : Dispatch) (env : Envelope) (hooks : Hooks σ) (s : σ) :
    Option (Except DispatchError Outcome × Dispatch × σ) := do
  match ← parseRefusal env.body with
  | .error _ => return (.error .BadBody,d,s)
  | .ok refusal =>
    match hooks.certForSender env.sender with
    | none => return (.error .UnknownSender,d,s)
    | some approverCert =>
      match ← verifyRefusalThen K env refusal approverCert d.intentTable hooks.onRejected s with
      | (.error e,intentTable,s') => return (.error (.Verify e),{ d with intentTable },s')
      | (.ok _,intentTable,s') => return (.ok .RefusalApplied,{ d with intentTable },s')

def dispatch (d : Dispatch) (envBytes : Bytes) (hooks : Hooks σ) (nowMs : UInt64) (s : σ) :
    Option (Except DispatchError Outcome × Dispatch × σ) := do
  match ← parseEnvelope envBytes with
  | .error _ => return (.error .BadEnvelope,d,s)
  | .ok env =>
    match ← verifyEnvelope K env with
    | some e => return (.error (.Verify e),d,s)
    | none =>
      if env.bodyType=bodyIntent then
        let (res,d') ← dispatchIntent d env nowMs
        return (res,d',s)
      else if env.bodyType=bodyGrant then
        let (res,s') ← dispatchGrant K d env hooks nowMs s
        return (res,d,s')
      else if env.bodyType=bodyRefusal then dispatchRefusal K d env hooks s
      else if env.bodyType=bodyUtterance then return (.ok .Utterance,d,s)
      else if env.bodyType=bodyEffect then return (.ok .Effect,d,s)
      else if env.bodyType=bodyControl then return (.ok .Control,d,s)
      else return (.error .UnsupportedBody,d,s)

end Route

/-- The declared resources and their aliases are within the arrays that hold them. -/
structure Fits (r : Resolver) : Prop where
  count : r.entries.length ≤ maxResources
  entries : ∀c∈r.entries,4+fpHexLen ≤ c.length ∧ c.length ≤ idMax
  aliasCount : r.aliases.length ≤ maxAliases
  aliases : ∀a∈r.aliases,a.bytes.length ≤ idMax

theorem fits_new (K : Crypto) (sigPubkey : Bytes) : Fits (Resolver.new K sigPubkey) where
  count := Nat.zero_le _
  entries _ hc := absurd hc List.not_mem_nil
  aliasCount := Nat.zero_le _
  aliases _ ha := absurd ha List.not_mem_nil

theorem canonical_length {id : Bytes} (h : Transport.validateCanonical id=true) : 4+fpHexLen ≤ id.length := by
  rw [Transport.validateCanonical] at h
  by_cases hl : id.length < 4+fpHexLen+3
  · rw [if_pos hl] at h
    cases h
  · omega

theorem Fits.add {r : Resolver} (h : Fits r) (canonical : Bytes) : Fits (r.add canonical).2 := by
  rw [Resolver.add]
  by_cases hv : Transport.validateCanonical canonical=false
  · rw [if_pos hv]
    exact h
  by_cases hl : idMax < canonical.length
  · rw [if_neg hv,if_pos hl]
    exact h
  by_cases hf : r.entries.length=maxResources
  · rw [if_neg hv,if_neg hl,if_pos hf]
    exact h
  by_cases hd : canonical∈r.entries
  · rw [if_neg hv,if_neg hl,if_neg hf,if_pos hd]
    exact h
  rw [if_neg hv,if_neg hl,if_neg hf,if_neg hd]
  refine ⟨?_,fun c hc => ?_,h.aliasCount,h.aliases⟩
  · have hcount := h.count
    rw [List.length_append,List.length_singleton]
    omega
  · cases List.mem_append.mp hc with
    | inl hold => exact h.entries c hold
    | inr hnew =>
      rw [List.mem_singleton.mp hnew]
      exact ⟨canonical_length (Bool.eq_true_of_not_eq_false hv),Nat.not_lt.mp hl⟩

section Resolve

variable {r : Resolver} {proposed : Bytes}

theorem buffer_eq {n : Nat} {bs : Bytes} (h : bs.length ≤ n) : range (fixed n bs).toList 0 bs.length=some bs := by
  rw [range_front (by rw [List.Vector.toList_length]; exact h),fixed_take n bs h]

theorem entryAt_eq (h : Fits r) {i : Nat} {c : Bytes} (hi : r.entries[i]?=some c) :
    entryAt r i=some ((fixed idMax c).toList,c.length) := by
  obtain ⟨hlt,-⟩ := List.getElem?_eq_some_iff.mp hi
  rw [entryAt,if_pos (hlt.trans_le h.count),List.getD_eq_getElem?_getD,hi]
  rfl

theorem aliasLoop_eq (entryIdx : Nat) (as : List Alias) (h : ∀a∈as,a.bytes.length ≤ idMax) :
    aliasLoop entryIdx proposed as=some (as.any (fun a => a.entry==entryIdx && a.bytes==proposed)) := by
  induction as with
  | nil => rfl
  | cons a as ih =>
    rw [aliasLoop,List.any_cons,ih (fun b hb => h b (List.mem_cons_of_mem _ hb)),
      buffer_eq (h a List.mem_cons_self)]
    simp only [Option.bind_eq_bind,Option.bind_some]
    by_cases hs : a.entry=entryIdx ∧ a.bytes.length=proposed.length
    · rw [if_pos hs,beq_iff_eq.mpr hs.1,Bool.true_and]
      by_cases he : a.bytes=proposed
      · rw [if_pos he,beq_iff_eq.mpr he,Bool.true_or]
        rfl
      · rw [if_neg he,beq_eq_false_iff_ne.mpr he,Bool.false_or]
    · have hmiss : (a.entry==entryIdx && a.bytes==proposed)=false := by
        rw [Bool.eq_false_iff]
        intro hb
        rw [Bool.and_eq_true,beq_iff_eq,beq_iff_eq] at hb
        exact hs ⟨hb.1,congrArg List.length hb.2⟩
      rw [if_neg hs,hmiss,Bool.false_or]

theorem entryHits_eq (h : Fits r) {i : Nat} {c : Bytes} (hi : r.entries[i]?=some c) :
    entryHits r i proposed=some (decide (c=proposed ∨ r.aliasHits i proposed=true)) := by
  have hw := h.entries c (List.mem_of_getElem? hi)
  have ha : aliasHits r i proposed=some (r.aliasHits i proposed) := by
    rw [aliasHits,aliases,if_pos h.aliasCount]
    exact aliasLoop_eq i r.aliases h.aliases
  rw [entryHits,entryAt_eq h hi]
  simp only [Option.bind_eq_bind,Option.bind_some,buffer_eq hw.2,ha]
  by_cases hc : c=proposed
  · rw [if_pos (congrArg List.length hc),if_pos hc]
    simp [hc]
  · rw [if_neg hc]
    simp [hc]

theorem resolveLoop_eq (h : Fits r) (cs : List (Bytes × Nat)) (hcs : ∀p∈cs,r.entries[p.2]?=some p.1)
    (found : Option Nat) : resolveLoop r proposed (cs.map Prod.snd) found=some (r.resolveLoop proposed cs found) := by
  induction cs generalizing found with
  | nil => rfl
  | cons p cs ih =>
    obtain ⟨c,i⟩ := p
    have hi : r.entries[i]?=some c := hcs (c,i) List.mem_cons_self
    have hrest := ih (fun p hp => hcs p (List.mem_cons_of_mem _ hp))
    rw [List.map_cons]
    by_cases hit : c=proposed ∨ r.aliasHits i proposed=true
    · cases found with
      | none =>
        rw [resolveLoop,Resolver.resolveLoop,entryHits_eq h hi,if_pos hit,decide_eq_true hit]
        exact hrest (some i)
      | some f =>
        rw [resolveLoop,Resolver.resolveLoop,entryHits_eq h hi,if_pos hit,decide_eq_true hit]
        simp only [Option.bind_eq_bind,Option.bind_some,if_true]
        by_cases hf : f≠i
        · rw [if_pos hf,if_pos hf]
          rfl
        · rw [if_neg hf,if_neg hf]
          exact hrest (some f)
    · cases found with
      | none =>
        rw [resolveLoop,Resolver.resolveLoop,entryHits_eq h hi,if_neg hit,decide_eq_false hit]
        exact hrest none
      | some f =>
        rw [resolveLoop,Resolver.resolveLoop,entryHits_eq h hi,if_neg hit,decide_eq_false hit]
        exact hrest (some f)

/-- What is found is the index of an entry. -/
theorem resolveLoop_found (cs : List (Bytes × Nat)) (found : Option Nat) (idx : Nat)
    (h : r.resolveLoop proposed cs found=.ok (some idx)) : found=some idx ∨ ∃c,(c,idx)∈cs := by
  induction cs generalizing found with
  | nil =>
    cases h
    exact Or.inl rfl
  | cons p cs ih =>
    obtain ⟨c,i⟩ := p
    have hrest : ∀f : Option Nat,r.resolveLoop proposed cs f=.ok (some idx) →
        f=some idx ∨ ∃c',(c',idx)∈(c,i)::cs := by
      intro f hf
      obtain hf|⟨c',hc'⟩ := ih f hf
      · exact Or.inl hf
      · exact Or.inr ⟨c',List.mem_cons_of_mem _ hc'⟩
    cases found with
    | none =>
      rw [Resolver.resolveLoop] at h
      split at h
      · obtain hf|hm := hrest (some i) h
        · cases hf
          exact Or.inr ⟨c,List.mem_cons_self⟩
        · exact Or.inr hm
      · exact hrest none h
    | some f =>
      rw [Resolver.resolveLoop] at h
      split at h
      · split at h
        · cases h
        · exact hrest (some f) h
      · exact hrest (some f) h

theorem resolve_eq (h : Fits r) : resolve r proposed=some (r.resolve proposed) := by
  have hidx : ∀p∈r.entries.zipIdx,r.entries[p.2]?=some p.1 := fun p hp => List.mem_zipIdx_iff_getElem?.mp hp
  have hrange : r.entries.zipIdx.map Prod.snd=List.range r.entries.length := by
    rw [List.zipIdx_map_snd,List.range_eq_range']
  rw [resolve,Resolver.resolve,← hrange,resolveLoop_eq h _ hidx]
  simp only [Option.bind_eq_bind,Option.bind_some]
  cases hl : r.resolveLoop proposed r.entries.zipIdx none with
  | error e => rfl
  | ok o =>
    cases o with
    | none => rfl
    | some idx =>
      obtain hn|⟨c,hc⟩ := resolveLoop_found _ _ _ hl
      · cases hn
      have hi : r.entries[idx]?=some c := hidx _ hc
      have hw := h.entries c (List.mem_of_getElem? hi)
      have hd : r.entries.getD idx []=c := by rw [List.getD_eq_getElem?_getD,hi,Option.getD_some]
      dsimp only
      rw [entryAt_eq h hi,hd]
      simp only [Option.bind_some,buffer_eq hw.2]
      rw [range_add hw.1]
      simp only [Option.bind_some]
      split_ifs <;> rfl

end Resolve

section Intents

theorem holdsLoop_eq (resource : FixedBytes 256) (resourceLen : Nat) (hl : resourceLen ≤ maxResource) (es : List Entry) :
    holdsLoop resource.toList resourceLen es=some (es.any (Entry.holds (resource.toList.take resourceLen))) := by
  induction es with
  | nil => rfl
  | cons e es ih =>
    rw [holdsLoop,List.any_cons,ih,resource_eq,range_front (by rw [List.Vector.toList_length]; exact hl)]
    simp only [Option.bind_eq_bind,Option.bind_some,Entry.holds]
    by_cases hs : e.state=.Pending ∨ e.state=.Executing
    · rw [if_pos hs]
      by_cases he : e.resource=resource.toList.take resourceLen
      · rw [if_pos he,decide_eq_true ⟨hs,he⟩,Bool.true_or]
        rfl
      · rw [if_neg he,decide_eq_false (fun h => he h.2),Bool.false_or]
    · rw [if_neg hs,decide_eq_false (fun h => hs h.1),Bool.false_or]

theorem admitIntent_eq (t : Table) (intentId : FixedBytes 16) (resource : FixedBytes 256) (resourceLen : Nat)
    (hl : resourceLen ≤ maxResource) (now : UInt64) : admitIntent t intentId resource resourceLen now=
      some ( t.admit intentId resource resourceLen hl now) := by
  rw [admitIntent, Table.admit,dif_pos hl]
  by_cases hdup : t.entries.any (Entry.pendingFor intentId)=true
  · rw [dif_pos hdup,dif_pos hdup]
    rfl
  have hloop : holdsLoop resource.toList resourceLen t.entries=
      some (t.entries.any (Entry.holds (Entry.resource ⟨intentId,resource,resourceLen,hl,.Pending,now⟩))) :=
    holdsLoop_eq resource resourceLen hl t.entries
  rw [dif_neg hdup,dif_neg hdup,hloop]
  simp only [Option.bind_eq_bind,Option.bind_some]
  by_cases hheld : t.entries.any (Entry.holds (Entry.resource ⟨intentId,resource,resourceLen,hl,.Pending,now⟩))=true
  · rw [if_pos hheld,if_pos hheld]
    rfl
  rw [if_neg hheld,if_neg hheld]
  by_cases hfull : maxPending ≤ t.entries.length
  · rw [if_pos hfull,if_pos hfull]
    rfl
  · rw [if_neg hfull,if_neg hfull]
    rfl

theorem resolveAndAdmit_eq {r : Resolver} (h : Fits r) (table : Table) (intentId : FixedBytes 16) (resourceId : Bytes)
    (now : UInt64) : resolveAndAdmit r table intentId resourceId now=
      some (r.resolveAndAdmit table intentId resourceId now) := by
  rw [resolveAndAdmit,Resolver.resolveAndAdmit,resolve_eq h]
  simp only [Option.bind_eq_bind,Option.bind_some]
  cases r.resolve resourceId with
  | error e => rfl
  | ok canonical =>
    dsimp only
    by_cases hl : maxResource < canonical.length
    · rw [if_pos hl,dif_pos hl]
      rfl
    have hle : canonical.length ≤ 256 := Nat.not_lt.mp hl
    rw [if_neg hl,dif_neg hl,copyTo_fixed hle]
    simp only [Option.bind_some]
    rw [exact_fixed (List.Vector.toList_length _),fixed_toList]
    simp only [Option.bind_some]
    rw [admitIntent_eq table intentId (fixed 256 canonical) canonical.length (Nat.not_lt.mp hl) now]
    cases table.admit intentId (fixed 256 canonical) canonical.length (Nat.not_lt.mp hl) now with
    | mk res t => cases res <;> rfl

theorem applyRefusal_eq (t : Table) (intentId : FixedBytes 16) : applyRefusal t intentId=some (t.applyRefusal intentId) := by
  rw [applyRefusal,Table.applyRefusal]
  cases hm : t.matchForGrant intentId with
  | none => rfl
  | some idx =>
    obtain ⟨hlt,-⟩ := List.findIdx?_eq_some_iff_getElem.mp hm
    dsimp only
    rw [index_eq hlt]
    rfl

end Intents

section Route

variable {σ : Type} {K : Crypto} {d : Dispatch} {env : Envelope} {now : UInt64}

/-- Callbacks that never panic. -/
def ofHooks (hooks : Transport.Hooks σ) : Hooks σ :=
  { hooks with
    executeEffect grant s := some (hooks.executeEffect grant s)
    alreadyConsumed s grantId notAfter nowMs := some (hooks.alreadyConsumed s grantId notAfter nowMs) }

/-- The checked dispatch ends, and as the dispatch does. -/
def Ends {τ : Type} (p : Option (Except DispatchError Outcome × τ)) (q : Except (Abort DispatchError) Outcome × τ) : Prop :=
  ∃r,p=some r ∧ q=(r.1.mapError Abort.err,r.2)

theorem verifyRefusalThen_eq {refusal : Refusal} (h : refusal.tbs.length < sliceLimit) (cert : Cert) (t : Table)
    (onRejected : Bytes → σ → σ) (s : σ) : verifyRefusalThen K env refusal cert t onRejected s=
      some (Transport.verifyRefusalThen K env refusal cert t onRejected s) := by
  rw [verifyRefusalThen,Transport.verifyRefusalThen,verifySignedErr_eq h]
  simp only [Option.bind_eq_bind,Option.bind_some,applyRefusal_eq]
  by_cases hb : env.bodyType≠bodyRefusal
  · rw [if_pos hb,if_pos hb]
    rfl
  rw [if_neg hb,if_neg hb]
  cases Transport.verifySignedErr K domainRefusal refusal.tbs refusal.sig env.sender with
  | some e => rfl
  | none =>
    dsimp only
    cases t.applyRefusal (fixed 16 refusal.intentId) with
    | mk outcome t' => cases outcome <;> (dsimp only; split_ifs <;> rfl)

theorem senderArray_eq (sender : Bytes) :
    senderArray sender=some (fixed 32 (if sender.length=32 then sender else [])) := by
  rw [senderArray]
  by_cases h : sender.length=32
  · have hs := copyArray_toList (fixed 32 sender)
    rw [toList_fixed sender h] at hs
    rw [if_pos h,if_pos h,hs]
  · rw [if_neg h,if_neg h]

theorem dispatchIntent_ends (hf : Fits d.resolver) (hb : env.body.length < sliceLimit) :
    Ends (dispatchIntent d env now) (d.dispatchIntent env now) := by
  rw [dispatchIntent,Dispatch.dispatchIntent,parseIntent_eq hb]
  simp only [Option.bind_eq_bind,Option.bind_some]
  cases Codec.parseIntent env.body with
  | error e => exact ⟨_,rfl,rfl⟩
  | ok intent =>
    dsimp only
    by_cases hl : intent.intentId.length≠lenIntentId
    · rw [if_pos hl,if_pos hl]
      exact ⟨_,rfl,rfl⟩
    rw [if_neg hl,if_neg hl,resolveAndAdmit_eq hf]
    simp only [Option.bind_some]
    cases d.resolver.resolveAndAdmit d.intentTable (fixed 16 intent.intentId) intent.resourceId now with
    | mk res intentTable =>
      cases res with
      | error e => exact ⟨_,rfl,rfl⟩
      | ok _ =>
        dsimp only
        by_cases ha : Dispatch.maxAction < intent.action.length
        · rw [dif_pos ha,dif_pos ha]
          exact ⟨_,rfl,rfl⟩
        have hle : intent.action.length ≤ 512 := Nat.not_lt.mp ha
        rw [dif_neg ha,dif_neg ha,copyTo_fixed hle]
        simp only [Option.bind_some]
        rw [exact_fixed (List.Vector.toList_length _),fixed_toList,senderArray_eq]
        exact ⟨_,rfl,rfl⟩

/-- The bounds on a grant's lifetime are hours, and the clock is below half of its range. -/
theorem expiry_in_range (hnow : now.toNat < 2^63) (grant : Grant) (hooks : Transport.Hooks σ) (s : σ) (cert : Cert) :
    ¬ExpiryOverflows grant (d.grantContext hooks s cert now) := by
  have hmax : tMaxSDefault.toNat=3600 := rfl
  have hrecv : tRecvSDefault.toNat=300 := rfl
  simp only [ExpiryOverflows,Dispatch.grantContext,hmax,hrecv]
  omega

theorem dispatchGrant_ends (hb : env.body.length < sliceLimit) (hnow : now.toNat < 2^63) (hooks : Transport.Hooks σ)
    (s : σ) : Ends (dispatchGrant K d env (ofHooks hooks) now s) (d.dispatchGrant K env hooks now s) := by
  rw [dispatchGrant,Dispatch.dispatchGrant,parseGrant_eq hb]
  simp only [Option.bind_eq_bind,Option.bind_some]
  cases hp : Codec.parseGrant env.body with
  | error e => exact ⟨_,rfl,rfl⟩
  | ok grant =>
    have hcert : (ofHooks hooks).certForSender env.sender=hooks.certForSender env.sender := rfl
    dsimp only
    rw [hcert]
    cases hooks.certForSender env.sender with
    | none => exact ⟨_,rfl,rfl⟩
    | some cert =>
      have htbs : grant.tbs.length < sliceLimit := (parsedGrant_tbs hp).trans_lt hb
      have hpanic : ¬Panics K env grant (d.grantContext hooks s cert now) :=
        fun h => expiry_in_range hnow grant hooks s cert h.2
      obtain ⟨r,hr,hr'⟩ := @verifyGrantThen_eq K env grant σ htbs (d.grantContext hooks s cert now)
        (ofHooks hooks).executeEffect hooks.executeEffect (fun _ => rfl) hpanic s
      have hctx : grantContext d (ofHooks hooks) s cert now=ofContext (d.grantContext hooks s cert now) := rfl
      dsimp only
      rw [hctx,hr]
      revert hr'
      cases Transport.verifyGrantThen K env grant (d.grantContext hooks s cert now) hooks.executeEffect s with
      | mk v s' =>
        intro hr'
        cases hr'
        cases r <;> exact ⟨_,rfl,rfl⟩

theorem dispatchRefusal_ends (hb : env.body.length < sliceLimit) (hooks : Transport.Hooks σ) (s : σ) :
    Ends (dispatchRefusal K d env (ofHooks hooks) s) (d.dispatchRefusal K env hooks s) := by
  rw [dispatchRefusal,Dispatch.dispatchRefusal,parseRefusal_eq hb]
  simp only [Option.bind_eq_bind,Option.bind_some]
  cases hp : Codec.parseRefusal env.body with
  | error e => exact ⟨_,rfl,rfl⟩
  | ok refusal =>
    have hcert : (ofHooks hooks).certForSender env.sender=hooks.certForSender env.sender := rfl
    dsimp only
    rw [hcert]
    cases hooks.certForSender env.sender with
    | none => exact ⟨_,rfl,rfl⟩
    | some cert =>
      have hrej : (ofHooks hooks).onRejected=hooks.onRejected := rfl
      dsimp only
      rw [hrej,verifyRefusalThen_eq ((parsedRefusal_tbs hp).trans_lt hb)]
      simp only [Option.bind_some]
      cases Transport.verifyRefusalThen K env refusal cert d.intentTable hooks.onRejected s with
      | mk res ts => cases res <;> exact ⟨_,rfl,rfl⟩

/-- No envelope makes the dispatcher panic. -/
theorem dispatch_ends {envBytes : Bytes} (hl : envBytes.length < sliceLimit) (hf : Fits d.resolver)
    (hnow : now.toNat < 2^63) (hooks : Transport.Hooks σ) (s : σ) :
    Ends (dispatch K d envBytes (ofHooks hooks) now s) (d.dispatch K envBytes hooks now s) := by
  rw [dispatch,Dispatch.dispatch,parseEnvelope_eq hl]
  simp only [Option.bind_eq_bind,Option.bind_some]
  cases hp : Codec.parseEnvelope envBytes with
  | error e => exact ⟨_,rfl,rfl⟩
  | ok env =>
    have htbs := parsedEnvelope_tbs hp
    have hb := ((parsedEnvelope_body hp).trans htbs).trans_lt hl
    dsimp only
    rw [verifyEnvelope_eq (htbs.trans_lt hl)]
    simp only [Option.bind_some]
    cases Transport.verifyEnvelope K env with
    | some e => exact ⟨_,rfl,rfl⟩
    | none =>
      dsimp only
      by_cases hi : env.bodyType=bodyIntent
      · obtain ⟨r,hr,hr'⟩ := @dispatchIntent_ends d env now hf hb
        rw [if_pos hi,if_pos hi,hr,hr']
        exact ⟨_,rfl,rfl⟩
      rw [if_neg hi,if_neg hi]
      by_cases hg : env.bodyType=bodyGrant
      · obtain ⟨r,hr,hr'⟩ := @dispatchGrant_ends σ K d env now hb hnow hooks s
        rw [if_pos hg,if_pos hg,hr,hr']
        exact ⟨_,rfl,rfl⟩
      rw [if_neg hg,if_neg hg]
      by_cases hrf : env.bodyType=bodyRefusal
      · rw [if_pos hrf,if_pos hrf]
        exact dispatchRefusal_ends hb hooks s
      rw [if_neg hrf,if_neg hrf]
      split_ifs <;> exact ⟨_,rfl,rfl⟩

end Route

end Bolina.Checked
