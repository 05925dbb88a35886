import Mathlib.Data.List.AList
import Mathlib.Data.List.Perm.Subperm

namespace Bolina.KeyedFold

variable {κ ν : Type*} [DecidableEq κ]

/-- Entries folded into a map one after the other, the last of a key winning. -/
def insertAll (m : AList (fun _ : κ => ν)) (l : List (Σ_ : κ,ν)) : AList (fun _ : κ => ν) :=
  l.foldl (fun m e => m.insert e.1 e.2) m

/-- Entries folded into a map one after the other, the first of a key winning. -/
def insertNew (m : AList (fun _ : κ => ν)) (l : List (Σ_ : κ,ν)) : AList (fun _ : κ => ν) :=
  l.foldl (fun m e => if e.1∈m then m else m.insert e.1 e.2) m

def eraseAll (m : AList (fun _ : κ => ν)) (ks : List κ) : AList (fun _ : κ => ν) :=
  ks.foldl (fun m k => m.erase k) m

theorem dlookup_eq_of_perm {m : AList (fun _ : κ => ν)} {l : List (Σ_ : κ,ν)}
    (h : l.Perm m.entries) (k : κ) : l.dlookup k=m.lookup k := by
  have hn : l.NodupKeys := (List.perm_nodupKeys h).mpr m.nodupKeys
  exact List.perm_dlookup k hn h

theorem lookup_insertAll (m : AList (fun _ : κ => ν)) (l : List (Σ_ : κ,ν)) (hl : l.NodupKeys) (k : κ) :
    (insertAll m l).lookup k=(l.dlookup k).or (m.lookup k) := by
  induction l generalizing m with
  | nil => rfl
  | cons e l ih =>
    obtain ⟨hnew,hl⟩ := List.nodupKeys_cons.mp hl
    have hstep : insertAll m (e::l)=insertAll (m.insert e.1 e.2) l := rfl
    rw [hstep,ih _ hl]
    by_cases hk : k=e.1
    · subst hk
      rw [List.dlookup_eq_none.mpr hnew,AList.lookup_insert,List.dlookup_cons_eq]
      rfl
    · rw [List.dlookup_cons_ne l e hk,AList.lookup_insert_ne hk]

theorem dlookup_singleton_ne {e : Σ_ : κ,ν} {k : κ} (h : k≠e.1) : List.dlookup k [e]=none := by
  rw [List.dlookup_cons_ne [] e h,List.dlookup_nil]

/-- The last entry of a key decides, however often the key occurs. -/
theorem lookup_insertAll_reverse (m : AList (fun _ : κ => ν)) (l : List (Σ_ : κ,ν)) (k : κ) :
    (insertAll m l).lookup k=(l.reverse.dlookup k).or (m.lookup k) := by
  induction l generalizing m with
  | nil => rfl
  | cons e l ih =>
    have hstep : insertAll m (e::l)=insertAll (m.insert e.1 e.2) l := rfl
    rw [hstep,ih,List.reverse_cons,List.dlookup_append,Option.or_assoc]
    congr 1
    by_cases hk : k=e.1
    · subst hk
      rw [AList.lookup_insert,List.dlookup_cons_eq]
      rfl
    · rw [AList.lookup_insert_ne hk,dlookup_singleton_ne hk]
      rfl

theorem lookup_insertNew (m : AList (fun _ : κ => ν)) (l : List (Σ_ : κ,ν)) (k : κ) :
    (insertNew m l).lookup k=(m.lookup k).or (l.dlookup k) := by
  induction l generalizing m with
  | nil => simp [insertNew]
  | cons e l ih =>
    have hstep : insertNew m (e::l)=insertNew (if e.1∈m then m else m.insert e.1 e.2) l := rfl
    rw [hstep,ih]
    by_cases hk : k=e.1
    · subst hk
      rw [List.dlookup_cons_eq]
      by_cases hm : e.1∈m
      · rw [if_pos hm]
        obtain ⟨v,hv⟩ := Option.isSome_iff_exists.mp (AList.lookup_isSome.mpr hm)
        rw [hv]
        rfl
      · rw [if_neg hm,AList.lookup_insert,AList.lookup_eq_none.mpr hm]
        rfl
    · rw [List.dlookup_cons_ne l e hk]
      by_cases hm : e.1∈m
      · rw [if_pos hm]
      · rw [if_neg hm,AList.lookup_insert_ne hk]

theorem insertAll_append (m : AList (fun _ : κ => ν)) (l l' : List (Σ_ : κ,ν)) :
    insertAll m (l++l')=insertAll (insertAll m l) l' := by simp [insertAll]

theorem insertNew_append (m : AList (fun _ : κ => ν)) (l l' : List (Σ_ : κ,ν)) :
    insertNew m (l++l')=insertNew (insertNew m l) l' := by simp [insertNew]

theorem insertNew_held (m : AList (fun _ : κ => ν)) (e : Σ_ : κ,ν) (h : e.1∈m) : insertNew m [e]=m := if_pos h

theorem insertNew_fresh (m : AList (fun _ : κ => ν)) (e : Σ_ : κ,ν) (h : e.1∉m) :
    insertNew m [e]=m.insert e.1 e.2 := if_neg h

theorem mem_eraseAll (m : AList (fun _ : κ => ν)) (ks : List κ) (k : κ) :
    k∈eraseAll m ks ↔ k∈m ∧ k∉ks := by
  induction ks generalizing m with
  | nil => simp [eraseAll]
  | cons e ks ih =>
    have hstep : eraseAll m (e::ks)=eraseAll (m.erase e) ks := rfl
    rw [hstep,ih,AList.mem_erase,List.mem_cons]
    tauto

theorem lookup_eraseAll (m : AList (fun _ : κ => ν)) (ks : List κ) (k : κ) :
    (eraseAll m ks).lookup k=if k∈ks then none else m.lookup k := by
  induction ks generalizing m with
  | nil => simp [eraseAll]
  | cons e ks ih =>
    have hstep : eraseAll m (e::ks)=eraseAll (m.erase e) ks := rfl
    rw [hstep,ih]
    by_cases hk : k=e
    · subst hk
      simp
    · rw [AList.lookup_erase_ne hk]
      simp [hk]

theorem mem_iff_of_lookup {m m' : AList (fun _ : κ => ν)} (h : ∀k,m.lookup k=m'.lookup k) (k : κ) :
    k∈m ↔ k∈m' := by rw [← AList.lookup_isSome,h,AList.lookup_isSome]

theorem lookup_insert_ite (m : AList (fun _ : κ => ν)) (e : κ) (v : ν) (k : κ) :
    (m.insert e v).lookup k=if k=e then some v else m.lookup k := by
  by_cases hk : k=e
  · rw [if_pos hk,hk,AList.lookup_insert]
  · rw [if_neg hk,AList.lookup_insert_ne hk]

theorem lookup_erase_ite (m : AList (fun _ : κ => ν)) (e k : κ) :
    (m.erase e).lookup k=if k=e then none else m.lookup k := by
  by_cases hk : k=e
  · rw [if_pos hk,hk,AList.lookup_erase]
  · rw [if_neg hk,AList.lookup_erase_ne hk]

theorem lookup_insert_congr {m m' : AList (fun _ : κ => ν)} (h : ∀k,m.lookup k=m'.lookup k)
    (e : κ) (v : ν) (k : κ) : (m.insert e v).lookup k=(m'.insert e v).lookup k := by
  rw [lookup_insert_ite,lookup_insert_ite,h]

theorem lookup_erase_congr {m m' : AList (fun _ : κ => ν)} (h : ∀k,m.lookup k=m'.lookup k)
    (e k : κ) : (m.erase e).lookup k=(m'.erase e).lookup k := by
  rw [lookup_erase_ite,lookup_erase_ite,h]

omit [DecidableEq κ] in
theorem keys_length_le {m m' : AList (fun _ : κ => ν)} (h : ∀k∈m',k∈m) : m'.keys.length ≤ m.keys.length :=
  (List.Nodup.subperm m'.keys_nodup h).length_le

omit [DecidableEq κ] in
theorem keys_length_lt {m m' : AList (fun _ : κ => ν)} (h : ∀k∈m',k∈m) {k : κ} (hk : k∈m) (hk' : k∉m') :
    m'.keys.length < m.keys.length := by
  have hnd : (k::m'.keys).Nodup := List.nodup_cons.mpr ⟨hk',m'.keys_nodup⟩
  have hsub : k::m'.keys⊆m.keys := List.cons_subset.mpr ⟨hk,h⟩
  exact (List.Nodup.subperm hnd hsub).length_le

theorem keys_length_insert (m : AList (fun _ : κ => ν)) (k : κ) (v : ν) (h : k∉m) :
    (m.insert k v).keys.length=m.keys.length+1 := by
  have hk : k∉m.keys := h
  rw [AList.keys_insert,List.erase_of_not_mem hk,List.length_cons]

end Bolina.KeyedFold
