import Bolina.Evidence.LedgerEnvelope
import Bolina.Framework.GuardedRun
import Bolina.Framework.KeyedTable

namespace Bolina.Evidence

open KeyedTable

def maxAnchors : Nat := 256
def maxRevocations : Nat := 64

/-- The first envelope of a pubkey is its anchor. -/
structure AnchorEntry where
  pubkey : FixedBytes 32
  hash : Hash
  deriving DecidableEq

structure RevocationEntry where
  pubkey : FixedBytes 32
  revokeHash : Hash
  certExpiryMs : UInt64
  deriving DecidableEq

/-- The ledger with all four of its tables. -/
structure Tables extends Ledger where
  anchors : List AnchorEntry
  revocations : List RevocationEntry
  deriving DecidableEq

def Tables.new : Tables := ⟨Ledger.new,[],[]⟩

def Tables.insertEnvelope (T : Tables) (entry : EnvelopeEntry) : Except LedgerError Unit × Tables :=
  let r := T.toLedger.insertEnvelope entry
  (r.1,{ T with toLedger := r.2 })

def Tables.checkSeq (T : Tables) (sender channel : FixedBytes 32) (seq : UInt64) :
    Except LedgerError Unit × Tables :=
  let r := T.toLedger.checkSeq sender channel seq
  (r.1,{ T with toLedger := r.2 })

def Tables.setAnchor (T : Tables) (pubkey : FixedBytes 32) (hash : Hash) : Except LedgerError Unit × Tables :=
  match T.anchors.find? (fun a => a.pubkey==pubkey) with
  | some a => if a.hash=hash then (.ok (),T) else (.error .Divergence,T)
  | none =>
    if maxAnchors ≤ T.anchors.length then (.error .AnchorsFull,T)
    else (.ok (),{ T with anchors := T.anchors++[⟨pubkey,hash⟩] })

def Tables.getAnchor (T : Tables) (pubkey : FixedBytes 32) : Option Hash :=
  (T.anchors.find? (fun a => a.pubkey==pubkey)).map (fun a => a.hash)

def Tables.setRevocation (T : Tables) (pubkey : FixedBytes 32) (revokeHash : Hash) (certExpiryMs : UInt64) :
    Except LedgerError Unit × Tables :=
  match T.revocations.find? (fun r => r.pubkey==pubkey) with
  | some r => if r.revokeHash=revokeHash then (.ok (),T) else (.error .Divergence,T)
  | none =>
    if maxRevocations ≤ T.revocations.length then
      match lowest (fun r => r.certExpiryMs.toNat) T.revocations with
      | some (i,_) =>
        (.ok (),{ T with revocations := swapRemove T.revocations i++[⟨pubkey,revokeHash,certExpiryMs⟩] })
      | none => (.error .RevocationsFull,T)
    else (.ok (),{ T with revocations := T.revocations++[⟨pubkey,revokeHash,certExpiryMs⟩] })

def Tables.isRevoked (T : Tables) (pubkey : FixedBytes 32) : Bool :=
  T.revocations.any (fun r => r.pubkey==pubkey)

def Tables.getRevokeHash (T : Tables) (pubkey : FixedBytes 32) : Option Hash :=
  (T.revocations.find? (fun r => r.pubkey==pubkey)).map (fun r => r.revokeHash)

/-- The calls that write to the ledger. -/
inductive Write where
  | insertEnvelope (entry : EnvelopeEntry)
  | checkSeq (sender channel : FixedBytes 32) (seq : UInt64)
  | setAnchor (pubkey : FixedBytes 32) (hash : Hash)
  | setRevocation (pubkey : FixedBytes 32) (revokeHash : Hash) (certExpiryMs : UInt64)
  deriving DecidableEq

def Tables.answer (T : Tables) : Write → Except LedgerError Unit × Tables
  | .insertEnvelope entry => T.insertEnvelope entry
  | .checkSeq sender channel seq => T.checkSeq sender channel seq
  | .setAnchor pubkey hash => T.setAnchor pubkey hash
  | .setRevocation pubkey revokeHash certExpiryMs => T.setRevocation pubkey revokeHash certExpiryMs

def Tables.step (T : Tables) (w : Write) : Tables := (T.answer w).2

def Tables.after (ws : List Write) : Tables := ws.foldl Tables.step Tables.new

def EnvelopeEntry.key (e : EnvelopeEntry) : FixedBytes 32 × FixedBytes 32 × UInt64 := (e.sender,e.channel,e.seq)

def SeqWindow.key (w : SeqWindow) : FixedBytes 32 × FixedBytes 32 := (w.sender,w.channel)

/-- What the four tables and the two counters keep. -/
structure Tables.Sound (T : Tables) : Prop where
  envelopes : Bounded EnvelopeEntry.key 4096 T.envelopes
  seqWindows : Bounded SeqWindow.key 256 T.seqWindows
  anchors : Bounded AnchorEntry.pubkey 256 T.anchors
  revocations : Bounded RevocationEntry.pubkey 64 T.revocations
  inserts : T.insertsTotal=T.envelopes.length+T.storefullTotal

section Scan

theorem find_pubkey_none {α : Type*} (f : α → FixedBytes 32) (xs : List α) (pubkey : FixedBytes 32)
    (h : xs.find? (fun x => f x==pubkey)=none) : ∀x∈xs,f x≠pubkey := by
  intro x hx he
  have hf := List.find?_eq_none.mp h x hx
  exact hf (by rw [he]; exact beq_self_eq_true _)

theorem envelope_key_new (xs : List EnvelopeEntry) (e : EnvelopeEntry)
    (h : xs.find? (EnvelopeEntry.isFor e.sender e.channel e.seq)=none) : ∀x∈xs,x.key≠e.key := by
  intro x hx he
  have hf := List.find?_eq_none.mp h x hx
  simp only [EnvelopeEntry.key,Prod.mk.injEq] at he
  exact hf ((isFor_iff _ _ _ x).mpr he)

variable (sender channel : FixedBytes 32) (seq : UInt64)

/-- A check moves a window and leaves its sender and channel. -/
theorem checkFirst_keys (ws ws' : List SeqWindow) (b : Bool)
    (h : checkFirst sender channel seq ws=some (b,ws')) : ws'.map SeqWindow.key=ws.map SeqWindow.key := by
  induction ws generalizing ws' with
  | nil => cases h
  | cons w ws ih =>
    rw [checkFirst] at h
    by_cases hw : w.isFor sender channel=true
    · rw [if_pos hw] at h
      cases h
      rfl
    · rw [if_neg hw] at h
      obtain ⟨r,hr,he⟩ := Option.map_eq_some_iff.mp h
      cases he
      rw [List.map_cons,List.map_cons,ih r.2 hr]

theorem checkFirst_new (ws : List SeqWindow) (h : checkFirst sender channel seq ws=none) :
    ∀w∈ws,w.key≠(sender,channel) := by
  induction ws with
  | nil => simp
  | cons w ws ih =>
    rw [checkFirst] at h
    by_cases hw : w.isFor sender channel=true
    · rw [if_pos hw] at h
      cases h
    · rw [if_neg hw,Option.map_eq_none_iff] at h
      intro v hv he
      cases List.mem_cons.mp hv with
      | inl hvw =>
        rw [hvw,SeqWindow.key,Prod.mk.injEq] at he
        exact hw ((window_isFor_iff sender channel w).mpr he)
      | inr hv => exact ih h v hv he

end Scan

section Keeps

variable {T : Tables}

theorem insertEnvelope_sound (h : T.Sound) (e : EnvelopeEntry) :
    (T.insertEnvelope e).2.Sound ∧ T.envelopes <+: (T.insertEnvelope e).2.envelopes := by
  cases hf : T.envelopes.find? (EnvelopeEntry.isFor e.sender e.channel e.seq) with
  | some x =>
    have hsame : (T.insertEnvelope e).2=T := by
      by_cases hh : x.hash=e.hash
      · simp only [Tables.insertEnvelope,Ledger.insertEnvelope,hf,if_pos hh]
      · simp only [Tables.insertEnvelope,Ledger.insertEnvelope,hf,if_neg hh]
    rw [hsame]
    exact ⟨h,List.prefix_rfl⟩
  | none =>
    have hins := h.inserts
    by_cases hfull : maxEnvelopes ≤ T.envelopes.length
    · simp only [Tables.insertEnvelope,Ledger.insertEnvelope,hf,if_pos hfull]
      refine ⟨⟨h.envelopes,h.seqWindows,h.anchors,h.revocations,?_⟩,List.prefix_rfl⟩
      change T.insertsTotal+1=T.envelopes.length+(T.storefullTotal+1)
      omega
    · simp only [Tables.insertEnvelope,Ledger.insertEnvelope,hf,if_neg hfull]
      have hroom : T.envelopes.length < 4096 := Nat.lt_of_not_le hfull
      have happ := h.envelopes.append e (envelope_key_new T.envelopes e hf) hroom
      refine ⟨⟨happ,h.seqWindows,h.anchors,h.revocations,?_⟩,List.prefix_append _ _⟩
      change T.insertsTotal+1=(T.envelopes++[e]).length+T.storefullTotal
      rw [List.length_append,List.length_singleton]
      omega

/-- A sequence check touches the windows alone. -/
theorem checkSeq_sound (h : T.Sound) (sender channel : FixedBytes 32) (seq : UInt64) :
    (T.checkSeq sender channel seq).2.Sound ∧
      (T.checkSeq sender channel seq).2.envelopes=T.envelopes ∧
      (T.checkSeq sender channel seq).2.anchors=T.anchors := by
  cases hc : checkFirst sender channel seq T.seqWindows with
  | some r =>
    obtain ⟨b,ws'⟩ := r
    have hw := h.seqWindows.of_map (checkFirst_keys sender channel seq T.seqWindows ws' b hc)
    cases b with
    | false =>
      simp only [Tables.checkSeq,Ledger.checkSeq,hc]
      exact ⟨⟨h.envelopes,hw,h.anchors,h.revocations,h.inserts⟩,trivial,trivial⟩
    | true =>
      simp only [Tables.checkSeq,Ledger.checkSeq,hc]
      exact ⟨⟨h.envelopes,hw,h.anchors,h.revocations,h.inserts⟩,trivial,trivial⟩
  | none =>
    by_cases hfull : maxSeqWindows ≤ T.seqWindows.length
    · simp only [Tables.checkSeq,Ledger.checkSeq,hc,if_pos hfull]
      exact ⟨⟨h.envelopes,h.seqWindows,h.anchors,h.revocations,h.inserts⟩,trivial,trivial⟩
    · simp only [Tables.checkSeq,Ledger.checkSeq,hc,if_neg hfull]
      have hw := h.seqWindows.append ⟨sender,channel,(ReplayWindow.new.check seq).2⟩
        (checkFirst_new sender channel seq T.seqWindows hc) (Nat.lt_of_not_le hfull)
      exact ⟨⟨h.envelopes,hw,h.anchors,h.revocations,h.inserts⟩,trivial,trivial⟩

theorem setAnchor_sound (h : T.Sound) (pubkey : FixedBytes 32) (hash : Hash) :
    (T.setAnchor pubkey hash).2.Sound ∧ (T.setAnchor pubkey hash).2.envelopes=T.envelopes ∧
      T.anchors <+: (T.setAnchor pubkey hash).2.anchors := by
  cases hf : T.anchors.find? (fun a => a.pubkey==pubkey) with
  | some a =>
    have hsame : (T.setAnchor pubkey hash).2=T := by
      by_cases hh : a.hash=hash
      · simp only [Tables.setAnchor,hf,if_pos hh]
      · simp only [Tables.setAnchor,hf,if_neg hh]
    rw [hsame]
    exact ⟨h,rfl,List.prefix_rfl⟩
  | none =>
    by_cases hfull : maxAnchors ≤ T.anchors.length
    · simp only [Tables.setAnchor,hf,if_pos hfull]
      exact ⟨h,trivial,List.prefix_rfl⟩
    · simp only [Tables.setAnchor,hf,if_neg hfull]
      have ha := h.anchors.append ⟨pubkey,hash⟩
        (find_pubkey_none AnchorEntry.pubkey T.anchors pubkey hf) (Nat.lt_of_not_le hfull)
      exact ⟨⟨h.envelopes,h.seqWindows,ha,h.revocations,h.inserts⟩,trivial,List.prefix_append _ _⟩

end Keeps

/-- Everything a revocation can do: nothing to a key on record, and otherwise an entry
appended, behind a lowest one taken out when the table is full. -/
theorem setRevocation_cases (T : Tables) (pubkey : FixedBytes 32) (revokeHash : Hash) (certExpiryMs : UInt64) :
    (T.isRevoked pubkey=true ∧ (T.setRevocation pubkey revokeHash certExpiryMs).2=T) ∨
    (T.isRevoked pubkey=false ∧ T.revocations.length < maxRevocations ∧
      T.setRevocation pubkey revokeHash certExpiryMs=
        (.ok (),{ T with revocations := T.revocations++[⟨pubkey,revokeHash,certExpiryMs⟩] })) ∨
    (T.isRevoked pubkey=false ∧ maxRevocations ≤ T.revocations.length ∧
      ∃i r,T.revocations[i]?=some r ∧ (∀q∈T.revocations,r.certExpiryMs ≤ q.certExpiryMs) ∧
        T.setRevocation pubkey revokeHash certExpiryMs=
          (.ok (),{ T with revocations := swapRemove T.revocations i++[⟨pubkey,revokeHash,certExpiryMs⟩] })) := by
  cases hf : T.revocations.find? (fun r => r.pubkey==pubkey) with
  | some r =>
    left
    constructor
    · have hr : (r.pubkey==pubkey)=true := by simpa using List.find?_some hf
      exact List.any_eq_true.mpr ⟨r,List.mem_of_find?_eq_some hf,hr⟩
    · by_cases hh : r.revokeHash=revokeHash
      · simp only [Tables.setRevocation,hf,if_pos hh]
      · simp only [Tables.setRevocation,hf,if_neg hh]
  | none =>
    have hnew : T.isRevoked pubkey=false := by
      apply List.any_eq_false.mpr
      exact fun r hr => List.find?_eq_none.mp hf r hr
    right
    by_cases hfull : maxRevocations ≤ T.revocations.length
    · right
      have hne : T.revocations≠[] := by
        intro he
        rw [he] at hfull
        exact absurd hfull (by decide)
      obtain ⟨i,r,hl⟩ := lowest_isSome (fun r : RevocationEntry => r.certExpiryMs.toNat) T.revocations hne
      obtain ⟨hi,hmin⟩ := lowest_spec _ T.revocations i r hl
      refine ⟨hnew,hfull,i,r,hi,hmin,?_⟩
      simp only [Tables.setRevocation,hf,if_pos hfull,hl]
    · left
      refine ⟨hnew,Nat.lt_of_not_le hfull,?_⟩
      simp only [Tables.setRevocation,hf,if_neg hfull]

theorem setRevocation_sound {T : Tables} (h : T.Sound) (pubkey : FixedBytes 32) (revokeHash : Hash)
    (certExpiryMs : UInt64) :
    (T.setRevocation pubkey revokeHash certExpiryMs).2.Sound ∧
      (T.setRevocation pubkey revokeHash certExpiryMs).2.envelopes=T.envelopes ∧
      (T.setRevocation pubkey revokeHash certExpiryMs).2.anchors=T.anchors := by
  have hother (hnew : T.isRevoked pubkey=false) : ∀r∈T.revocations,r.pubkey≠pubkey := by
    intro r hr he
    exact List.any_eq_false.mp hnew r hr (by rw [he]; exact beq_self_eq_true _)
  obtain ⟨_,hs⟩|⟨hnew,hroom,hs⟩|⟨hnew,_,i,r,hi,_,hs⟩ := setRevocation_cases T pubkey revokeHash certExpiryMs
  · rw [hs]
    exact ⟨h,rfl,rfl⟩
  · rw [hs]
    have hr := h.revocations.append ⟨pubkey,revokeHash,certExpiryMs⟩ (hother hnew) hroom
    exact ⟨⟨h.envelopes,h.seqWindows,h.anchors,hr,h.inserts⟩,rfl,rfl⟩
  · rw [hs]
    obtain ⟨hleft,hroom,_⟩ := h.revocations.swapRemove hi
    have hsub : ∀q∈swapRemove T.revocations i,q.pubkey≠pubkey := by
      intro q hq
      exact hother hnew q ((swapRemove_perm T.revocations i r hi).mem_iff.mp (List.mem_cons_of_mem _ hq))
    have hr := hleft.append ⟨pubkey,revokeHash,certExpiryMs⟩ hsub hroom
    exact ⟨⟨h.envelopes,h.seqWindows,h.anchors,hr,h.inserts⟩,rfl,rfl⟩

theorem new_sound : Tables.new.Sound := ⟨Bounded.nil,Bounded.nil,Bounded.nil,Bounded.nil,rfl⟩

theorem step_sound {T : Tables} (h : T.Sound) (w : Write) :
    (T.step w).Sound ∧ T.envelopes <+: (T.step w).envelopes ∧ T.anchors <+: (T.step w).anchors := by
  cases w with
  | insertEnvelope entry =>
    obtain ⟨hs,hp⟩ := insertEnvelope_sound h entry
    exact ⟨hs,hp,List.prefix_rfl⟩
  | checkSeq sender channel seq =>
    obtain ⟨hs,he,ha⟩ := checkSeq_sound h sender channel seq
    exact ⟨hs,he ▸ List.prefix_rfl,ha ▸ List.prefix_rfl⟩
  | setAnchor pubkey hash =>
    obtain ⟨hs,he,ha⟩ := setAnchor_sound h pubkey hash
    exact ⟨hs,he ▸ List.prefix_rfl,ha⟩
  | setRevocation pubkey revokeHash certExpiryMs =>
    obtain ⟨hs,he,ha⟩ := setRevocation_sound h pubkey revokeHash certExpiryMs
    exact ⟨hs,he ▸ List.prefix_rfl,ha ▸ List.prefix_rfl⟩

theorem run_sound {T : Tables} (h : T.Sound) (ws : List Write) :
    (ws.foldl Tables.step T).Sound ∧ T.envelopes <+: (ws.foldl Tables.step T).envelopes ∧
      T.anchors <+: (ws.foldl Tables.step T).anchors := by
  induction ws generalizing T with
  | nil => exact ⟨h,List.prefix_rfl,List.prefix_rfl⟩
  | cons w ws ih =>
    obtain ⟨hs,he,ha⟩ := step_sound h w
    obtain ⟨hs',he',ha'⟩ := ih hs
    exact ⟨hs',he.trans he',ha.trans ha'⟩

theorem find_of_prefixed {α : Type*} (p : α → Bool) (xs ys : List α) (x : α) (hp : xs <+: ys)
    (h : xs.find? p=some x) : ys.find? p=some x := by
  obtain ⟨zs,rfl⟩ := hp
  rw [List.find?_append,h,Option.some_or]

/-- Whatever is called in whatever order: the tables stay bounded under distinct keys, the
gauge counts what is stored and what was refused for room, and what a key was first given
is what it is found with later. -/
theorem tables_bounded (ws later : List Write) :
    (Tables.after ws).Sound ∧
    (∀sender channel seq hash,(Tables.after ws).findEnvelope sender channel seq=some hash →
      (Tables.after (ws++later)).findEnvelope sender channel seq=some hash) ∧
    (∀pubkey hash,(Tables.after ws).getAnchor pubkey=some hash →
      (Tables.after (ws++later)).getAnchor pubkey=some hash) ∧
    (Tables.after ws).envelopes <+: (Tables.after (ws++later)).envelopes ∧
    (Tables.after ws).anchors <+: (Tables.after (ws++later)).anchors := by
  have hs : (Tables.after ws).Sound := (run_sound new_sound ws).1
  have hlater : Tables.after (ws++later)=later.foldl Tables.step (Tables.after ws) := List.foldl_append
  obtain ⟨_,he,ha⟩ := run_sound hs later
  rw [← hlater] at he ha
  refine ⟨hs,?_,?_,he,ha⟩
  · intro sender channel seq hash h
    obtain ⟨e,hf,hh⟩ := Option.map_eq_some_iff.mp h
    rw [Ledger.findEnvelope,find_of_prefixed _ _ _ e he hf,Option.map_some,hh]
  · intro pubkey hash h
    obtain ⟨a,hf,hh⟩ := Option.map_eq_some_iff.mp h
    rw [Tables.getAnchor,find_of_prefixed _ _ _ a ha hf,Option.map_some,hh]

end Bolina.Evidence
