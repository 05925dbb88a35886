import Bolina.Transport.DagRun

namespace Bolina.Causal

open Reachability Relation

abbrev SigPubkey := FixedBytes 32

inductive HistoricalError where
  | NotDescendantOfAnchor
  | DescendantOfRevocation
  | AnchorNotFound
  | MalformedKey
  | BadCaSignature
  | UntrustedCa
  | CertExpired
  | CertTooLongLived
  | RoleAgentApprover
  | RoleAgentExecutor
  | RoleApproverExecutor
  | ApproverNoQuorum
  deriving DecidableEq,Repr

structure AuditContext where
  getAnchor : SigPubkey → Option Node
  getRevokeHash : SigPubkey → Option Node
  validateCertNoClock : Bytes → Except HistoricalError Unit
  dag : Dag

def historicalValidity (envHash : Node) (sender : SigPubkey) (senderCert : Bytes) (ctx : AuditContext) :
    Option (Except HistoricalError Unit × AuditContext) := do
  match ctx.validateCertNoClock senderCert with
  | .error e => return (.error e,ctx)
  | .ok () =>
    match ctx.getAnchor sender with
    | none => return (.error .AnchorNotFound,ctx)
    | some anchorHash =>
      let (descends,dag) ← ctx.dag.isAncestor anchorHash envHash
      let ctx := { ctx with dag }
      if descends=false then return (.error .NotDescendantOfAnchor,ctx)
      else
        match ctx.getRevokeHash sender with
        | none => return (.ok (),ctx)
        | some revokeHash =>
          let (revoked,dag) ← ctx.dag.isAncestor revokeHash envHash
          let ctx := { ctx with dag }
          if revoked then return (.error .DescendantOfRevocation,ctx) else return (.ok (),ctx)

/-- The verdict on an envelope whose past is `past`. -/
def AuditContext.verdict (ctx : AuditContext) (sender : SigPubkey) (senderCert : Bytes) (past : Node → Bool) :
    Except HistoricalError Unit :=
  match ctx.validateCertNoClock senderCert with
  | .error e => .error e
  | .ok () =>
    match ctx.getAnchor sender with
    | none => .error .AnchorNotFound
    | some anchorHash =>
      if past anchorHash=false then .error .NotDescendantOfAnchor
      else
        match ctx.getRevokeHash sender with
        | none => .ok ()
        | some revokeHash => if past revokeHash then .error .DescendantOfRevocation else .ok ()

/-- The causal past of an envelope: what a path of edges leads to from it. -/
def Dag.PastIs (d : Dag) (env : Node) (past : Node → Bool) : Prop := ∀x,past x=true ↔ TransGen d.Edge env x

def AuditContext.over (ctx : AuditContext) (d : Dag) : AuditContext := { ctx with dag := d }

/-- The context behind one more revocation. -/
def AuditContext.revoking (ctx : AuditContext) (sender : SigPubkey) (revokeHash : Node) : AuditContext :=
  { ctx with getRevokeHash := Function.update ctx.getRevokeHash sender (some revokeHash) }

section Past

variable {d : Dag} {env : Node} {past : Node → Bool}

theorem exists_past (d : Dag) (env : Node) : ∃past,d.PastIs env past := by
  classical
  exact ⟨fun x => decide (TransGen d.Edge env x),fun x => decide_eq_true_iff⟩

theorem isAncestor_past (hd : d.Sound) (h : d.PastIs env past) (x : Node) : d.isAncestor x env=some (past x,d) := by
  obtain ⟨found,heq,hfound⟩ := isAncestor_eq hd x env
  have hsame : found=past x := Bool.eq_iff_iff.mpr (hfound.trans (h x).symm)
  rw [heq,hsame]

/-- The audit reads the graph through the past of its envelope only. -/
theorem historicalValidity_eq (hd : d.Sound) (h : d.PastIs env past) (ctx : AuditContext) (sender : SigPubkey)
    (senderCert : Bytes) :
    historicalValidity env sender senderCert (ctx.over d)=some (ctx.verdict sender senderCert past,ctx.over d) := by
  rw [historicalValidity,AuditContext.verdict,AuditContext.over]
  cases ctx.validateCertNoClock senderCert with
  | error e => rfl
  | ok =>
    cases ctx.getAnchor sender with
    | none => rfl
    | some anchorHash =>
      simp only [Option.bind_eq_bind,isAncestor_past hd h,Option.bind_some]
      cases past anchorHash with
      | false => rfl
      | true =>
        cases ctx.getRevokeHash sender with
        | none => rfl
        | some revokeHash =>
          simp only [Bool.true_eq_false,if_false]
          cases past revokeHash <;> rfl

end Past

/-- An operation that adds no parent to an envelope or to its past. -/
def DagOp.Outside (d : Dag) (env : Node) : DagOp → Prop
  | .insert _ child => child≠env ∧ ¬TransGen d.Edge env child
  | .isAncestor _ _ => True

/-- Two graphs on which an envelope has one past and one verdict. -/
def AuditsAlike (env : Node) (d d' : Dag) : Prop :=
  (∀x,∃found,d.isAncestor x env=some (found,d) ∧ d'.isAncestor x env=some (found,d')) ∧
  ∀(ctx : AuditContext) (sender : SigPubkey) (senderCert : Bytes),∃res,
    historicalValidity env sender senderCert (ctx.over d)=some (res,ctx.over d) ∧
    historicalValidity env sender senderCert (ctx.over d')=some (res,ctx.over d')

section Run

variable {d d' : Dag} {env : Node} {past : Node → Bool}

theorem auditsAlike_of_past (hd : d.Sound) (hd' : d'.Sound) (h : d.PastIs env past) (h' : d'.PastIs env past) :
    AuditsAlike env d d' := by
  refine ⟨fun x => ?_,fun ctx sender senderCert => ?_⟩
  · exact ⟨past x,isAncestor_past hd h x,isAncestor_past hd' h' x⟩
  · exact ⟨_,historicalValidity_eq hd h ctx sender senderCert,historicalValidity_eq hd' h' ctx sender senderCert⟩

/-- An insert below what the envelope does not descend from leaves its past as it is. -/
theorem Dag.Inserting.pastIs {parent child : Node} {res : Except DagError Unit} (hi : d.Inserting parent child res d')
    (hd : d.Sound) (hne : child≠env) (hout : ¬TransGen d.Edge env child) (h : d.PastIs env past) :
    d'.PastIs env past := by
  intro x
  rw [h x]
  cases res with
  | ok =>
    have hapart : ¬ReflTransGen d.Edge env child := by
      rw [reflTransGen_iff_eq_or_transGen,not_or]
      exact ⟨hne,hout⟩
    rw [hi.edge_ok,transGen_addEdge_of_apart hapart]
  | error => rw [hi.edge_error hd]

theorem act_past (hd : d.Sound) {op : DagOp} (hop : op.Outside d env) (h : d.PastIs env past) :
    ∃d',d.act op=some d' ∧ d'.Sound ∧ d'.PastIs env past := by
  cases op with
  | insert parent child =>
    obtain ⟨res,d',hact,hi⟩ := act_insert hd parent child
    exact ⟨d',hact,hi.sound hd,hi.pastIs hd hop.1 hop.2 h⟩
  | isAncestor ancestor descendant => exact ⟨d,act_isAncestor hd ancestor descendant,hd,h⟩

/-- What is outside of a past is outside of the same past in any graph. -/
theorem DagOp.Outside.of_past {op : DagOp} (hop : op.Outside d env) (h : d.PastIs env past)
    (h' : d'.PastIs env past) : op.Outside d' env := by
  cases op with
  | insert parent child =>
    obtain ⟨hne,hout⟩ := hop
    rw [← h child] at hout
    refine ⟨hne,?_⟩
    rwa [← h' child]
  | isAncestor ancestor descendant => trivial

theorem runs_past (hd : d.Sound) (h : d.PastIs env past) (ops : List DagOp) (hops : ∀op∈ops,op.Outside d env) :
    ∃d',d.runs ops=some d' ∧ d'.Sound ∧ d'.PastIs env past := by
  induction ops generalizing d with
  | nil => exact ⟨d,rfl,hd,h⟩
  | cons op ops ih =>
    obtain ⟨d₁,hact,hd₁,h₁⟩ := act_past hd (hops op List.mem_cons_self) h
    have hrest : ∀op∈ops,op.Outside d₁ env := by
      intro op hop
      exact (hops op (List.mem_cons_of_mem _ hop)).of_past h h₁
    obtain ⟨d',hruns,hd',h'⟩ := ih hd₁ h₁ hrest
    refine ⟨d',?_,hd',h'⟩
    rw [Dag.runs,List.foldlM_cons,hact]
    exact hruns

/-- A revocation that is not in the past of an envelope does not change its verdict. -/
theorem verdict_revoking (ctx : AuditContext) (sender : SigPubkey) (senderCert : Bytes) {revokeHash : Node}
    (hnone : ctx.getRevokeHash sender=none) (hout : past revokeHash=false) :
    (ctx.revoking sender revokeHash).verdict sender senderCert past=ctx.verdict sender senderCert past := by
  simp only [AuditContext.verdict,AuditContext.revoking,Function.update_self,hnone]
  cases ctx.validateCertNoClock senderCert with
  | error e => rfl
  | ok =>
    cases ctx.getAnchor sender with
    | none => rfl
    | some anchorHash => simp only [hout,Bool.false_eq_true,if_false]

/-- Behind every run the past of an envelope and its verdict stay what they are: through an insert
outside of that past, through any number of them, and through a revocation outside of it. -/
theorem audit_immutable (ops : List DagOp) (env : Node) :
    ∃d,Dag.new.runs ops=some d ∧
      (∀parent child d',d.insert parent child=some (.ok (),d') → child≠env → ¬TransGen d.Edge env child →
        AuditsAlike env d d') ∧
      (∀later,(∀op∈later,DagOp.Outside d env op) → ∃d',d.runs later=some d' ∧ AuditsAlike env d d') ∧
      ∀(ctx : AuditContext) (sender : SigPubkey) (senderCert : Bytes) (revokeHash : Node),
        ctx.getRevokeHash sender=none → ¬TransGen d.Edge env revokeHash →
        ∃res,historicalValidity env sender senderCert (ctx.over d)=some (res,ctx.over d) ∧
          historicalValidity env sender senderCert ((ctx.revoking sender revokeHash).over d)=
            some (res,(ctx.revoking sender revokeHash).over d) := by
  obtain ⟨d,hruns,hd⟩ := runs_sound new_sound ops
  obtain ⟨past,h⟩ := exists_past d env
  refine ⟨d,hruns,fun parent child d' hins hne hout => ?_,fun later hlater => ?_,?_⟩
  · obtain ⟨res,d₁,heq,hi⟩ := insert_inserting hd parent child
    rw [hins] at heq
    cases heq
    exact auditsAlike_of_past hd (hi.sound hd) h (hi.pastIs hd hne hout h)
  · obtain ⟨d',hruns',hd',h'⟩ := runs_past hd h later hlater
    exact ⟨d',hruns',auditsAlike_of_past hd hd' h h'⟩
  · intro ctx sender senderCert revokeHash hnone hout
    have hpast : past revokeHash=false := by
      rw [← h revokeHash,Bool.not_eq_true] at hout
      exact hout
    refine ⟨_,historicalValidity_eq hd h ctx sender senderCert,?_⟩
    rw [historicalValidity_eq hd h,verdict_revoking ctx sender senderCert hnone hpast]

/-- A child of the envelope comes in, and the audit of the envelope is as before. -/
theorem audit_immutable_sample :
    ∃d d',Dag.new.runs [.insert (sampleNode 1) (sampleNode 2)]=some d ∧
      d.insert (sampleNode 2) (sampleNode 3)=some (.ok (),d') ∧ AuditsAlike (sampleNode 2) d d' := by
  obtain ⟨d,hruns,hinsert,_⟩ := audit_immutable [.insert (sampleNode 1) (sampleNode 2)] (sampleNode 2)
  let edge : Dag := ⟨[sampleNode 1,sampleNode 2],[[],[0]],List.replicate maxNodes false⟩
  let path : Dag := ⟨[sampleNode 1,sampleNode 2,sampleNode 3],[[],[0],[1]],List.replicate maxNodes false⟩
  have hedge : Dag.new.runs [.insert (sampleNode 1) (sampleNode 2)]=some edge := by decide +kernel
  have hpath : edge.insert (sampleNode 2) (sampleNode 3)=some (.ok (),path) := by decide +kernel
  have hnew : sampleNode 3∉edge.nodes := by decide +kernel
  have hne : sampleNode 3≠sampleNode 2 := by decide +kernel
  have he : d=edge := Option.some.inj (hruns.symm.trans hedge)
  rw [he] at hinsert
  exact ⟨edge,path,hedge,hpath,hinsert _ _ _ hpath hne (fun h => hnew (path_nodes h).2)⟩

end Run

end Bolina.Causal
