import Bolina.Codec.Formats

namespace Bolina.Codec

open BigEndian

/-- The `n` pairs of a key and its signature that are packed in `w`. -/
def caPairs : Nat → Bytes → List (Bytes×Bytes)
  | 0,_ => []
  | n+1,w => (w.take lenCaKey,(w.drop lenCaKey).take lenSig)::caPairs n (w.drop (lenCaKey+lenSig))

def caKeys (n : Nat) (w : Bytes) : List Bytes := (caPairs n w).map Prod.fst

def certFields : Parser Cert := do
  let version ← u8r
  let roleBits ← u8r
  let sigPubkey ← take lenPubkey
  let kexPubkey ← take lenPubkey
  let notBefore ← u64be
  let notAfter ← u64be
  let name ← field16 maxName
  let scopeCount ← u8r
  oversize (maxScope<scopeCount)
  let scopeIds ← take (scopeCount.toNat*lenScopeId)
  return { version,roleBits,sigPubkey,kexPubkey,notBefore,notAfter,name,scopeCount,scopeIds,
           caSigCount := 0,caSigs := [],tbs := [] }

/-- The bytes before the count of the CA signatures. -/
def tbsOfCert (c : Cert) : Bytes :=
  [c.version]++[c.roleBits]++c.sigPubkey++c.kexPubkey++put64 c.notBefore++put64 c.notAfter++
    pushField16 c.name++[c.scopeCount]++c.scopeIds

def nonzero (count : UInt8) : Parser Unit := if count=0 then throw .Malformed else pure ()

/-- The count of the CA signatures, then the pairs as they stand in the buffer. -/
def certSigs : Parser (UInt8×Bytes) := do
  let caSigCount ← u8r
  nonzero caSigCount
  oversize (maxCaSigs<caSigCount)
  let pairs ← spanned (caSigs caSigCount.toNat none)
  return (caSigCount,pairs)

def certFits (c : Cert) : Prop :=
  c.sigPubkey.length=lenPubkey ∧ c.kexPubkey.length=lenPubkey ∧ c.name.length ≤ maxName ∧
  c.scopeCount ≤ maxScope ∧ c.scopeIds.length=c.scopeCount.toNat*lenScopeId

/-- One to four pairs, under strictly ascending keys. -/
def sigsFit (count : UInt8) (pairs : Bytes) : Prop :=
  count≠0 ∧ count ≤ maxCaSigs ∧ pairs.length=count.toNat*(lenCaKey+lenSig) ∧
  (caKeys count.toNat pairs).IsChain (· < ·)

theorem encodeCert_eq (c : Cert) : encodeCert c=tbsOfCert c++([c.caSigCount]++c.caSigs) := by
  simp only [encodeCert,tbsOfCert,List.append_assoc,List.cons_append,List.nil_append]

def certWire : Wire Cert where
  parse := parseCert
  encode := encodeCert
  tbs := tbsOfCert
  sigPart c := [c.caSigCount]++c.caSigs
  split := encodeCert_eq
  Fits c := certFits c ∧ sigsFit c.caSigCount c.caSigs
  sealed c := { c with tbs := tbsOfCert c }
  gates c :=
    [⟨[c.version]++[c.roleBits]++c.sigPubkey++c.kexPubkey++put64 c.notBefore++put64 c.notAfter,2,maxName⟩,
     ⟨[c.version]++[c.roleBits]++c.sigPubkey++c.kexPubkey++put64 c.notBefore++put64 c.notAfter++
       pushField16 c.name,1,maxScope.toNat⟩,
     ⟨tbsOfCert c,1,maxCaSigs.toNat⟩]

theorem codes_certFields :
    Lays certFields (fun c => certFits c ∧ c.caSigCount=0 ∧ c.caSigs=[] ∧ c.tbs=[]) tbsOfCert := by
  refine Codes.layout (codes_u8r.field Cert.version fun version =>
    codes_u8r.field Cert.roleBits fun roleBits =>
    (codes_take lenPubkey).field Cert.sigPubkey fun sigPubkey =>
    (codes_take lenPubkey).field Cert.kexPubkey fun kexPubkey =>
    codes_u64be.field Cert.notBefore fun notBefore =>
    codes_u64be.field Cert.notAfter fun notAfter =>
    (codes_field16 maxName (by decide)).field Cert.name fun name =>
    codes_u8r.field Cert.scopeCount fun scopeCount =>
    (codes_oversize _).test fun _ =>
    (codes_take (scopeCount.toNat*lenScopeId)).field Cert.scopeIds fun scopeIds =>
    Codes.value _ _ (fun c : Cert => c.caSigCount=0 ∧ c.caSigs=[] ∧ c.tbs=[]) ?_) ?_ ?_
  · intro c
    cases c
    simp only [Cert.mk.injEq,and_assoc,true_and]
  · intro c
    simp only [certFits,and_assoc,true_and,decide_eq_true_iff,UInt8.not_lt]
  · intro c
    simp only [tbsOfCert,List.append_assoc,List.append_nil]

/-- A key stands above the one before it. -/
def ascends (prev : Option Bytes) (caKey : Bytes) : Parser Unit :=
  if ∃k∈prev,caKey ≤ k then throw .Malformed else pure ()

theorem caSigs_succ (n : Nat) (prev : Option Bytes) : caSigs (n+1) prev=(do
    let caKey ← take lenCaKey
    ascends prev caKey
    let _ ← take lenSig
    caSigs n (some caKey)) := by
  cases prev with
  | none => simp [caSigs,ascends]
  | some k =>
    rw [caSigs]
    congr 1
    funext caKey
    by_cases h : caKey ≤ k <;> simp [ascends,h]

theorem caKeys_succ (n : Nat) (caKey sig rest : Bytes) (hkey : caKey.length=lenCaKey) (hsig : sig.length=lenSig) :
    caKeys (n+1) (caKey++(sig++rest))=caKey::caKeys n rest := by
  have hdrop : (caKey++(sig++rest)).drop (lenCaKey+lenSig)=rest := by
    rw [← List.append_assoc]
    exact List.drop_left' (by rw [List.length_append,hkey,hsig])
  rw [caKeys,caPairs,List.map_cons,List.take_left' hkey,hdrop]
  rfl

/-- The loop reads as many pairs as it is told to, and they are in order. -/
theorem codes_caSigs (n : Nat) (prev : Option Bytes) : Codes (caSigs n prev)
    (fun _ _ w => w.length=n*(lenCaKey+lenSig) ∧ (prev.toList++caKeys n w).IsChain (· < ·)) := by
  induction n generalizing prev with
  | zero =>
    refine (Codes.pure ()).congr ?_
    intro front a w
    rw [caKeys,caPairs,List.map_nil,List.append_nil,Nat.zero_mul,List.length_eq_zero_iff]
    have hchain : prev.toList.IsChain (· < ·) := by
      cases prev <;> simp
    exact ⟨fun h => ⟨h.2,hchain⟩,fun h => ⟨rfl,h.1⟩⟩
  | succ n ih =>
    rw [caSigs_succ]
    refine ((codes_take lenCaKey).bind fun caKey => (codes_check (∃k∈prev,caKey ≤ k) .Malformed).bind fun _ =>
      (codes_take lenSig).bind fun _ => ih (some caKey)).congr ?_
    intro front _ w
    have hchain : ∀caKey rest,(prev.toList++caKey::caKeys n rest).IsChain (· < ·) ↔
        (¬∃k∈prev,caKey ≤ k) ∧ ((some caKey).toList++caKeys n rest).IsChain (· < ·) := by
      intro caKey rest
      cases prev <;> simp
    constructor
    · intro hw
      obtain ⟨_,caKey,_,rfl,⟨hkey,rfl⟩,_,_,_,rfl,⟨hprev,rfl⟩,_,sig,rest,rfl,⟨hsig,rfl⟩,hrest,hkeys⟩ := hw
      refine ⟨?_,?_⟩
      · simp only [List.length_append,List.length_nil,hkey,hsig,hrest,Nat.add_mul]
        omega
      · rw [List.nil_append,caKeys_succ n caKey sig rest hkey hsig,hchain]
        exact ⟨hprev,hkeys⟩
    · intro hw
      obtain ⟨hlen,hkeys⟩ := hw
      rw [Nat.add_mul,Nat.one_mul] at hlen
      have hkey : (w.take lenCaKey).length=lenCaKey := List.length_take_of_le (by omega)
      have hsig : ((w.drop lenCaKey).take lenSig).length=lenSig :=
        List.length_take_of_le (by rw [List.length_drop]; omega)
      have hw : w=w.take lenCaKey++((w.drop lenCaKey).take lenSig++w.drop (lenCaKey+lenSig)) := by
        rw [← List.drop_drop,List.take_append_drop,List.take_append_drop]
      rw [caKeys,caPairs,List.map_cons] at hkeys
      have hkeys := (hchain _ _).mp hkeys
      exact ⟨w.take lenCaKey,_,_,hw,⟨hkey,rfl⟩,(),[],_,rfl,⟨hkeys.1,rfl⟩,_,_,w.drop (lenCaKey+lenSig),rfl,
        ⟨hsig,rfl⟩,by rw [List.length_drop,hlen]; omega,hkeys.2⟩

theorem codes_certSigs : Lays certSigs (fun s => sigsFit s.1 s.2) (fun s => [s.1]++s.2) := by
  refine (codes_u8r.bind fun caSigCount => (codes_check (caSigCount=0) .Malformed).bind fun _ =>
    (codes_oversize (maxCaSigs<caSigCount)).bind fun _ => (codes_spanned _ _ (codes_caSigs caSigCount.toNat none)).bind fun pairs =>
    Codes.pure (caSigCount,pairs)).congr ?_
  intro front s w
  constructor
  · intro hw
    obtain ⟨caSigCount,_,_,rfl,⟨-,rfl⟩,_,_,_,rfl,⟨hzero,rfl⟩,_,_,_,rfl,⟨hmax,rfl⟩,pairs,_,_,rfl,
      ⟨⟨hlen,hkeys⟩,rfl⟩,rfl,rfl⟩ := hw
    rw [decide_eq_true_iff,UInt8.not_lt] at hmax
    exact ⟨⟨hzero,hmax,hlen,hkeys⟩,by simp only [List.nil_append,List.append_nil]⟩
  · intro hw
    obtain ⟨⟨hzero,hmax,hlen,hkeys⟩,rfl⟩ := hw
    have hle : ¬decide (maxCaSigs < s.1)=true := by
      rw [decide_eq_true_iff,UInt8.not_lt]
      exact hmax
    exact ⟨s.1,_,_,rfl,⟨trivial,rfl⟩,(),[],_,rfl,⟨hzero,rfl⟩,(),[],_,rfl,⟨hle,rfl⟩,s.2,_,[],
      (List.append_nil _).symm,⟨⟨hlen,hkeys⟩,rfl⟩,rfl,rfl⟩

def putCert (c : Cert) (tbs : Bytes) (sigs : UInt8×Bytes) : Cert :=
  { c with caSigCount := sigs.1,caSigs := sigs.2,tbs }

theorem nonzero_bind {α : Type} (count : UInt8) (f : Unit → Parser α) : (nonzero count>>=f)=
    if count=0 then (do let _ ← (throw .Malformed : Parser PUnit); f ()) else f () := by
  rw [nonzero]
  split_ifs
  · rfl
  · rw [pure_bind]

theorem cert_eq : cert=(do
    let c ← signed certFields certSigs putCert
    finish
    return c) := by
  simp only [cert,signed,certFields,certSigs,spanned,putCert,bind_assoc,pure_bind]
  simp only [nonzero_bind]

theorem cert_gates (v : Cert) (hv : certWire.Fits v) (g : Gate) (hg : g∈certWire.gates v) :
    g.Guards (signed certFields certSigs putCert) (encodeCert v) := by
  obtain ⟨hfits,hzero,hmax,-,-⟩ := hv
  obtain ⟨hsig,hkex,hname,hcount,hscopes⟩ := hfits
  rcases List.mem_cons.mp hg with rfl | hg
  · refine ⟨⟨v.name.length,v.name++([v.scopeCount]++(v.scopeIds++([v.caSigCount]++v.caSigs))),hname,?_⟩,?_⟩
    · simp only [encodeCert,pushField16,List.append_assoc,List.cons_append,List.nil_append]
    · intro q hq hb
      simp only [List.append_assoc]
      exact .here _ _ _ _ (.past codes_u8r _ v.version _ trivial (.past codes_u8r _ v.roleBits _ trivial
        (.past (codes_take _) _ v.sigPubkey _ hsig (.past (codes_take _) _ v.kexPubkey _ hkex
        (.past codes_u64be _ v.notBefore _ trivial (.past codes_u64be _ v.notAfter _ trivial
        (.here _ _ _ _ (over_field16 _ _ _ hq hb))))))))
  rcases List.mem_cons.mp hg with rfl | hg
  · refine ⟨⟨v.scopeCount.toNat,v.scopeIds++([v.caSigCount]++v.caSigs),hcount,?_⟩,?_⟩
    · simp only [encodeCert,beBytes_one,List.append_assoc,List.cons_append,List.nil_append]
    · intro q hq hb
      obtain ⟨n,rfl⟩ := List.length_eq_one_iff.mp hq
      simp only [List.append_assoc]
      exact .here _ _ _ _ (.past codes_u8r _ v.version _ trivial (.past codes_u8r _ v.roleBits _ trivial
        (.past (codes_take _) _ v.sigPubkey _ hsig (.past (codes_take _) _ v.kexPubkey _ hkex
        (.past codes_u64be _ v.notBefore _ trivial (.past codes_u64be _ v.notAfter _ trivial
        (.past (codes_field16 _ (by decide)) _ v.name _ hname (over_count _ _ _ _ (lt_of_beNat hb)))))))))
  · obtain rfl := List.mem_singleton.mp hg
    refine ⟨⟨v.caSigCount.toNat,v.caSigs,hmax,?_⟩,?_⟩
    · simp only [encodeCert,tbsOfCert,beBytes_one,List.append_assoc,List.cons_append,List.nil_append]
    · intro q hq hb
      obtain ⟨n,rfl⟩ := List.length_eq_one_iff.mp hq
      have hn : maxCaSigs < n := lt_of_beNat hb
      have hover : Over certSigs (tbsOfCert v) [n] := by
        rw [← List.append_nil [n]]
        refine .past codes_u8r _ n _ trivial (.test (codes_check (n=0) .Malformed) _ _ ?_ (.here _ _ _ _ ?_))
        · intro heq
          obtain rfl := heq
          exact absurd hn (by decide)
        · intro rest
          rw [decide_eq_true hn]
          rfl
      exact .past codes_certFields _ { v with caSigCount := 0,caSigs := [],tbs := [] } _
        ⟨⟨hsig,hkex,hname,hcount,hscopes⟩,rfl,rfl,rfl⟩
        (.later _ codes_consumed _ (tbsOfCert v) [] [n] ⟨rfl,rfl⟩ (.here _ _ _ _ (by rwa [List.append_nil])))

theorem cert_exact : ∃body R,certWire.Exact body R := by
  have hparse : ∀w,parseCert w=message (signed certFields certSigs putCert) w := by
    intro w
    change cert.run' ⟨w,0⟩=_
    rw [cert_eq]
    rfl
  refine ⟨_,_,exact_of_signed putCert (fun c => { c with caSigCount := 0,caSigs := [],tbs := [] })
    (fun c => (c.caSigCount,c.caSigs)) codes_certFields codes_certSigs hparse ?_ ?_ cert_gates⟩
  · intro a sigs hfits hsigs
    exact ⟨⟨hfits.1,hsigs⟩,rfl,encodeCert_eq _⟩
  · intro v hv
    exact ⟨⟨hv.1,rfl,rfl,rfl⟩,hv.2,rfl,(encodeCert_eq v).symm⟩

/-- Every one of the six formats can be read back and written back. -/
theorem codec_roundTrip : envelopeWire.RoundTrip ∧ intentWire.RoundTrip ∧ grantWire.RoundTrip ∧
    refusalWire.RoundTrip ∧ spanWire.RoundTrip ∧ certWire.RoundTrip := by
  obtain ⟨_,_,henvelope⟩ := envelope_exact
  obtain ⟨_,_,hintent⟩ := intent_exact
  obtain ⟨_,_,hgrant⟩ := grant_exact
  obtain ⟨_,_,hrefusal⟩ := refusal_exact
  obtain ⟨_,_,hspan⟩ := span_exact
  obtain ⟨_,_,hcert⟩ := cert_exact
  exact ⟨henvelope.roundTrip,hintent.roundTrip,hgrant.roundTrip,hrefusal.roundTrip,hspan.roundTrip,
    hcert.roundTrip⟩

/-- A message of any of the six formats ends where its lengths say, and nowhere else. -/
theorem codec_framed : envelopeWire.Framed ∧ intentWire.Framed ∧ grantWire.Framed ∧
    refusalWire.Framed ∧ spanWire.Framed ∧ certWire.Framed := by
  obtain ⟨_,_,henvelope⟩ := envelope_exact
  obtain ⟨_,_,hintent⟩ := intent_exact
  obtain ⟨_,_,hgrant⟩ := grant_exact
  obtain ⟨_,_,hrefusal⟩ := refusal_exact
  obtain ⟨_,_,hspan⟩ := span_exact
  obtain ⟨_,_,hcert⟩ := cert_exact
  exact ⟨henvelope.framed,hintent.framed,hgrant.framed,hrefusal.framed,hspan.framed,hcert.framed⟩

end Bolina.Codec
