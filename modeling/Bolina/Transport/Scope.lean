import Bolina.Framework.PathPrefix
import Bolina.Transport.CheckedVerify
import Bolina.Transport.Resolver
import Mathlib.Tactic.IntervalCases

namespace Bolina.Transport

open BigEndian Codec PathPrefix

/-- The name of a resource in a certificate. -/
def scopeId (K : Crypto) (path : Bytes) : Bytes := (K.blake2s path).toList.take lenScopeId

/-- The scope list of a certificate, cut into its ids. -/
def scopeList (cert : Cert) : List Bytes :=
  (List.range cert.scopeCount.toNat).map (fun i => (cert.scopeIds.drop (i*lenScopeId)).take lenScopeId)

/-- The scope ids fill the list that the count announces. -/
def ScopesFilled (cert : Cert) : Prop := cert.scopeIds.length=8*cert.scopeCount.toNat

section Scan

variable (resourceId : Bytes)

theorem getD_slash (k : Nat) : resourceId.getD k 0=slash ↔ resourceId[k]?=some slash := by
  rw [List.getD_eq_getElem?_getD]
  cases resourceId[k]? with
  | none => simp [slash]
  | some b => simp

/-- The inner loop stops right behind the last slash before its start, or at zero. -/
theorem slashEnd_spec (n : Nat) : slashEnd resourceId n ≤ n ∧
    (∀j,slashEnd resourceId n ≤ j → j < n → resourceId[j]?≠some slash) ∧
    (slashEnd resourceId n≠0 → resourceId[slashEnd resourceId n-1]?=some slash) := by
  induction n with
  | zero => simp [slashEnd]
  | succ n ih =>
    obtain ⟨hle,hnone,hat⟩ := ih
    rw [slashEnd]
    by_cases hs : resourceId.getD n 0=slash
    · have hif : ¬resourceId.getD n 0≠0x2f := not_not.mpr hs
      rw [if_neg hif]
      refine ⟨le_rfl,?_,?_⟩
      · intro j hj hlt
        omega
      · intro _
        exact (getD_slash resourceId n).mp hs
    · have hif : resourceId.getD n 0≠0x2f := hs
      rw [if_pos hif]
      refine ⟨hle.trans (Nat.le_succ n),?_,hat⟩
      intro j hj hlt
      by_cases he : j=n
      · rw [he]
        exact fun h => hs ((getD_slash resourceId n).mpr h)
      · exact hnone j hj (by omega)

/-- A slash in front of the start is in front of where the inner loop stops. -/
theorem lt_slashEnd {k n : Nat} (hlt : k < n) (hs : resourceId[k]?=some slash) : k < slashEnd resourceId n := by
  by_contra hge
  exact (slashEnd_spec resourceId n).2.1 k (Nat.not_lt.mp hge) hlt hs

variable (K : Crypto) (cert : Cert)

theorem certCarriesScope_iff (h : ScopesFilled cert) (scope : Bytes) :
    certCarriesScope cert scope=true ↔ scope∈scopeList cert := by
  rw [certCarriesScope,List.any_eq_true,scopeList,List.mem_map]
  have hfit : ∀i∈List.range cert.scopeCount.toNat,i*lenScopeId+lenScopeId ≤ cert.scopeIds.length := by
    intro i hi
    have hlt := List.mem_range.mp hi
    rw [h,lenScopeId]
    omega
  constructor
  · intro hw
    obtain ⟨i,hi,hc⟩ := hw
    simp only [Bool.and_eq_true,beq_iff_eq] at hc
    exact ⟨i,hi,hc.2⟩
  · intro hw
    obtain ⟨i,hi,he⟩ := hw
    refine ⟨i,hi,?_⟩
    simp only [Bool.and_eq_true,beq_iff_eq,decide_eq_true_eq]
    exact ⟨hfit i hi,he⟩

/-- The walk from `stop` to the root tries `stop` and every place in front of it where a slash
stands. -/
theorem scopeLoop_iff (fuel stop : Nat) (hf : stop ≤ fuel) :
    scopeLoop K cert resourceId fuel stop=true ↔ ∃k,0 < k ∧ k ≤ stop ∧ (k=stop ∨ resourceId[k]?=some slash) ∧
      certCarriesScope cert (scopeId K (resourceId.take k))=true := by
  induction fuel generalizing stop with
  | zero =>
    have hnone : ¬∃k,0 < k ∧ k ≤ stop ∧ (k=stop ∨ resourceId[k]?=some slash) ∧
        certCarriesScope cert (scopeId K (resourceId.take k))=true := by
      intro hw
      obtain ⟨k,hpos,hle,_⟩ := hw
      omega
    simp [scopeLoop,hnone]
  | succ fuel ih =>
    obtain ⟨hend,_,hat⟩ := slashEnd_spec resourceId stop
    rw [scopeLoop]
    by_cases h0 : stop=0
    · rw [if_pos h0]
      constructor
      · simp
      · intro hw
        obtain ⟨k,hpos,hle,_⟩ := hw
        omega
    · rw [if_neg h0]
      by_cases hc : certCarriesScope cert (scopeId K (resourceId.take stop))=true
      · have hif : certCarriesScope cert ((K.blake2s (resourceId.take stop)).toList.take lenScopeId)=true := hc
        rw [if_pos hif]
        exact ⟨fun _ => ⟨stop,Nat.pos_of_ne_zero h0,le_rfl,Or.inl rfl,hc⟩,fun _ => rfl⟩
      · have hif : ¬certCarriesScope cert ((K.blake2s (resourceId.take stop)).toList.take lenScopeId)=true := hc
        rw [if_neg hif]
        -- whatever stops in front of `stop` stops at a slash, and the last one is where the walk goes on
        have hback : ∀k,0 < k → k ≤ stop → (k=stop ∨ resourceId[k]?=some slash) →
            certCarriesScope cert (scopeId K (resourceId.take k))=true →
              k < slashEnd resourceId stop ∧ resourceId[k]?=some slash := by
          intro k _ hle hk hcarry
          obtain rfl | hsl := hk
          · exact absurd hcarry hc
          · have hne : k≠stop := fun he => hc (he ▸ hcarry)
            exact ⟨lt_slashEnd resourceId (Nat.lt_of_le_of_ne hle hne) hsl,hsl⟩
        by_cases hz : slashEnd resourceId stop=0
        · simp only [hz,if_true]
          constructor
          · simp
          · intro hw
            obtain ⟨k,hpos,hle,hk,hcarry⟩ := hw
            have h := (hback k hpos hle hk hcarry).1
            omega
        · simp only [hz,if_false]
          rw [ih (slashEnd resourceId stop-1) (by omega)]
          constructor
          · intro hw
            obtain ⟨k,hpos,hle,hk,hcarry⟩ := hw
            refine ⟨k,hpos,by omega,Or.inr ?_,hcarry⟩
            obtain rfl | hsl := hk
            · exact hat hz
            · exact hsl
          · intro hw
            obtain ⟨k,hpos,hle,hk,hcarry⟩ := hw
            obtain ⟨hlt,hsl⟩ := hback k hpos hle hk hcarry
            exact ⟨k,hpos,by omega,Or.inr hsl,hcarry⟩

/-- The walk that is lost when its fuel ends comes to an end within the length of the path, and
more fuel changes nothing. -/
theorem scopeLoop_ends (fuel : Nat) (hf : resourceId.length ≤ fuel) :
    Checked.scopeLoop K cert resourceId fuel resourceId.length=some (scopeCoversResource K cert resourceId) := by
  rw [Checked.scopeLoop_eq cert resourceId fuel _ hf le_rfl]
  have hsame : scopeLoop K cert resourceId fuel resourceId.length=scopeCoversResource K cert resourceId := by
    rw [scopeCoversResource,Bool.eq_iff_iff,scopeLoop_iff resourceId K cert fuel _ hf,
      scopeLoop_iff resourceId K cert _ _ le_rfl]
  rw [hsame]

theorem scopeCovers_iff (h : ScopesFilled cert) :
    scopeCoversResource K cert resourceId=true ↔
      ∃p,Ancestor slash p resourceId ∧ scopeId K p∈scopeList cert := by
  rw [scopeCoversResource,scopeLoop_iff resourceId K cert _ _ le_rfl]
  simp only [certCarriesScope_iff cert h]
  constructor
  · intro hw
    obtain ⟨k,hpos,hle,hk,hcarry⟩ := hw
    exact ⟨resourceId.take k,ancestor_iff_take.mpr ⟨k,hpos,hle,rfl,hk⟩,hcarry⟩
  · intro hw
    obtain ⟨p,hp,hcarry⟩ := hw
    obtain ⟨k,hpos,hle,rfl,hk⟩ := ancestor_iff_take.mp hp
    exact ⟨k,hpos,hle,hk,hcarry⟩

/-- A scope list that grows covers more. -/
theorem scopeCovers_mono (h : ScopesFilled cert) (cert' : Cert) (h' : ScopesFilled cert')
    (hsub : scopeList cert⊆scopeList cert') (hc : scopeCoversResource K cert resourceId=true) :
    scopeCoversResource K cert' resourceId=true := by
  obtain ⟨p,hp,hmem⟩ := (scopeCovers_iff resourceId K cert h).mp hc
  exact (scopeCovers_iff resourceId K cert' h').mpr ⟨p,hp,hsub hmem⟩

/-- What is named itself is covered with everything below it. -/
theorem scopeCovers_below (h : ScopesFilled cert) (hne : resourceId≠[]) (hmem : scopeId K resourceId∈scopeList cert)
    (x : Bytes) : scopeCoversResource K cert (resourceId++slash::x)=true :=
  (scopeCovers_iff _ K cert h).mpr ⟨resourceId,ancestor_below hne x,hmem⟩

/-- The scope of one path does not reach one that goes on inside its last segment, unless a
shortened hash collides. -/
theorem scopeCovers_sibling (h : ScopesFilled cert) (c : UInt8) (hc : c≠slash) (x : Bytes)
    (hscope : ∀s∈scopeList cert,s=scopeId K resourceId)
    (hcollide : ∀p,Ancestor slash p (resourceId++c::x) → scopeId K p=scopeId K resourceId → p=resourceId) :
    scopeCoversResource K cert (resourceId++c::x)=false := by
  rw [← Bool.not_eq_true,scopeCovers_iff _ K cert h]
  intro hw
  obtain ⟨p,hp,hmem⟩ := hw
  have he := hcollide p hp (hscope _ hmem)
  rw [he] at hp
  exact not_ancestor_sibling hc x hp

end Scan

/-- Scope matching is ancestor matching: the walk ends for every path, and it finds a scope
exactly if an ancestor of the path has one. -/
theorem scope_is_ancestor_matching (K : Crypto) (cert : Cert) (h : ScopesFilled cert) (resourceId : Bytes) :
    (∀fuel,resourceId.length ≤ fuel →
      Checked.scopeLoop K cert resourceId fuel resourceId.length=some (scopeCoversResource K cert resourceId)) ∧
    (scopeCoversResource K cert resourceId=true ↔
      ∃p,Ancestor slash p resourceId ∧ scopeId K p∈scopeList cert) ∧
    (∀cert',ScopesFilled cert' → scopeList cert⊆scopeList cert' →
      scopeCoversResource K cert resourceId=true → scopeCoversResource K cert' resourceId=true) ∧
    (resourceId≠[] → scopeId K resourceId∈scopeList cert → ∀x,
      scopeCoversResource K cert (resourceId++slash::x)=true) ∧
    (∀c x,c≠slash → (∀s∈scopeList cert,s=scopeId K resourceId) →
      (∀p,Ancestor slash p (resourceId++c::x) → scopeId K p=scopeId K resourceId → p=resourceId) →
        scopeCoversResource K cert (resourceId++c::x)=false) := by
  refine ⟨?_,scopeCovers_iff resourceId K cert h,?_,?_,?_⟩
  · intro fuel hf
    exact scopeLoop_ends resourceId K cert fuel hf
  · intro cert' h' hsub hc
    exact scopeCovers_mono resourceId K cert h cert' h' hsub hc
  · intro hne hmem x
    exact scopeCovers_below resourceId K cert h hne hmem x
  · intro c x hc hscope hcollide
    exact scopeCovers_sibling resourceId K cert h c hc x hscope hcollide

/-- The path a/b. -/
def pathAb : Bytes := [0x61,slash,0x62]

/-- The digests of a, a/b, a/b/c and a/bc. -/
def pathCrypto : Crypto where
  blake2s bs := fixed 32
    (if bs=[0x61] then beBytes 32 0x4a0d129873403037c2cd9b9048203687f6233fb6738956e0349bd4320fec3e90
     else if bs=pathAb then beBytes 32 0xb0200ee8030a4d0978e1e4078a81d20e7b5e0f62359472818643423186cf0258
     else if bs=pathAb++slash::[0x63] then beBytes 32 0xa1cca6f633b3d9ddc2830fac59e7a920ba6a35858762d79483c72e2f72309531
     else if bs=pathAb++0x63::[] then beBytes 32 0xefb17c27635ad05efe29f0a5179243b3b09e086180a2122b9f2a71db6f2bae90
     else [])
  ed25519 _ _ _ := false

/-- A certificate with the one scope a/b. -/
def abCert : Cert := { sampleCert with scopeIds := beBytes 8 0xb0200ee8030a4d09 }

theorem scope_is_ancestor_matching_sample :
    Checked.scopeLoop pathCrypto abCert pathAb 3 3=some true ∧
    scopeCoversResource pathCrypto abCert (pathAb++slash::[0x63])=true ∧
    scopeCoversResource pathCrypto abCert (pathAb++0x63::[])=false := by
  have hfilled : abCert.scopeIds.length=8*abCert.scopeCount.toNat := by decide +kernel
  have hlist : scopeList abCert=[scopeId pathCrypto pathAb] := by decide +kernel
  have hmem : scopeId pathCrypto pathAb∈scopeList abCert := by
    rw [hlist]
    exact List.mem_singleton_self _
  obtain ⟨hends,hiff,_,hbelow,hsibling⟩ := scope_is_ancestor_matching pathCrypto abCert hfilled pathAb
  refine ⟨?_,hbelow (by decide) hmem [0x63],?_⟩
  · have hself := hiff.mpr ⟨pathAb,ancestor_self (by decide),hmem⟩
    rw [← hself]
    exact hends 3 (by decide)
  · refine hsibling 0x63 [] (by decide) ?_ ?_
    · intro s hs
      rw [hlist] at hs
      exact List.mem_singleton.mp hs
    · intro p hp hcollide
      obtain ⟨k,hpos,hle,rfl,hk⟩ := ancestor_iff_take.mp hp
      have hlen : (pathAb++0x63::[]).length=4 := by rfl
      rw [hlen] at hle hk
      interval_cases k
      · exact absurd hcollide (by decide +kernel)
      · simp [pathAb,slash] at hk
      · simp [pathAb,slash] at hk
      · exact absurd hcollide (by decide +kernel)

end Bolina.Transport
