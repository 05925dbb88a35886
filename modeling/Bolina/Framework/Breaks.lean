import Bolina.Framework.ListSearch

/-! Lines with a break of two elements between them, and a text behind a doubled break. -/

namespace Bolina.Breaks

open ListSearch

variable {α : Type*}

/-- Lines joined by the break `[c,l]`. -/
def joined (c l : α) (first : List α) (more : List (List α)) : List α := first++more.flatMap (fun line => c::l::line)

section Joined

variable (c l : α) {first line : List α} {more : List (List α)}

theorem joined_nil : joined c l first []=first := List.append_nil first

theorem joined_cons : joined c l first (line::more)=first++c::l::joined c l line more := by
  simp [joined]

theorem map_joined {β : Type*} (f : α → β) (first : List α) (more : List (List α)) :
    (joined c l first more).map f=joined (f c) (f l) (first.map f) (more.map (fun line => line.map f)) := by
  induction more generalizing first with
  | nil => simp [joined]
  | cons line more ih => simp only [joined_cons,List.map_append,List.map_cons,ih]

theorem mem_joined {x : α} (h : x∈joined c l first more) : x=c ∨ x=l ∨ x∈first ∨ ∃line∈more,x∈line := by
  simp only [joined,List.mem_append,List.mem_flatMap,List.mem_cons] at h
  rcases h with hx | ⟨line,hline,hx | hx | hx⟩
  · exact .inr (.inr (.inl hx))
  · exact .inl hx
  · exact .inr (.inl hx)
  · exact .inr (.inr (.inr ⟨line,hline,hx⟩))

end Joined

variable [BEq α] [LawfulBEq α]

section Search

variable {c l x : α} {needle front back first : List α} {more : List (List α)}

/-- Elements that the needle does not start with are passed. -/
theorem findSub_past (h : x∉front) :
    findSub (x::needle) (front++back)=(findSub (x::needle) back).map (fun i => front.length+i) := by
  induction front with
  | nil => simp
  | cons y front ih =>
    obtain ⟨hy,hfront⟩ := not_or.mp (List.mem_cons.not.mp h)
    have hp : ¬(x::needle).isPrefixOf (y::(front++back))=true := by
      rw [List.isPrefixOf_iff_prefix,List.cons_prefix_cons]
      exact fun hp => hy hp.1
    rw [List.cons_append,findSub,if_neg hp,ih hfront,Option.map_map]
    congr 1
    funext i
    simp only [Function.comp_apply,List.length_cons]
    omega

/-- A line that does not hold the needle is passed with its break. -/
theorem findSub_behind (hx : x∉needle) (hne : needle≠[]) (h : findSub needle front=none) :
    findSub needle (front++x::back)=(findSub needle back).map (fun i => front.length+1+i) := by
  induction front with
  | nil =>
    have hp : ¬needle.isPrefixOf (x::back)=true := by
      rw [List.isPrefixOf_iff_prefix]
      intro hp
      obtain ⟨y,ys,rfl⟩ := List.exists_cons_of_ne_nil hne
      exact hx (by rw [(List.cons_prefix_cons.mp hp).1]; exact List.mem_cons_self)
    rw [List.nil_append,findSub,if_neg hp]
    congr 1
    funext i
    simp only [List.length_nil]
    omega
  | cons y front ih =>
    have hhead : ¬needle.isPrefixOf (y::front)=true := by
      intro hp
      rw [findSub,if_pos hp] at h
      cases h
    have hp : ¬needle.isPrefixOf (y::(front++x::back))=true := by
      rw [List.isPrefixOf_iff_prefix]
      intro hp
      -- a needle that reached the break would hold it
      by_cases hlen : needle.length ≤ (y::front).length
      · exact hhead (List.isPrefixOf_iff_prefix.mpr
          (List.prefix_of_prefix_length_le hp (List.prefix_append (y::front) (x::back)) hlen))
      · have hin : y::front++[x] <+: needle := by
          refine List.prefix_of_prefix_length_le ⟨back,by simp⟩ hp ?_
          rw [List.length_append,List.length_singleton]
          exact Nat.lt_of_not_le hlen
        exact hx (hin.subset (by simp))
    rw [findSub,if_neg hhead,Option.map_eq_none_iff] at h
    rw [List.cons_append,findSub,if_neg hp,ih h,Option.map_map]
    congr 1
    funext i
    simp only [Function.comp_apply,List.length_cons]
    omega

theorem findSub_next (hc : c∉needle) (hl : l∉needle) (hne : needle≠[]) (h : findSub needle front=none) :
    findSub needle (front++c::l::back)=(findSub needle back).map (fun i => front.length+2+i) := by
  have hnil : findSub needle ([] : List α)=none := by
    rw [findSub,if_neg (by simpa using hne)]
  have hbreak : findSub needle ([]++l::back)=_ := findSub_behind hl hne hnil
  rw [List.nil_append] at hbreak
  rw [findSub_behind hc hne h,hbreak,Option.map_map]
  congr 1
  funext i
  simp only [Function.comp_apply,List.length_nil]
  omega

/-- A needle that no line holds does not stand in the joined lines. -/
theorem findSub_lines (hc : c∉needle) (hl : l∉needle) (hne : needle≠[]) (hfirst : findSub needle first=none)
    (hmore : ∀line∈more,findSub needle line=none) : findSub needle (joined c l first more)=none := by
  induction more generalizing first with
  | nil => rwa [joined_nil]
  | cons line more ih =>
    obtain ⟨hline,hmore⟩ := List.forall_mem_cons.mp hmore
    rw [joined_cons,findSub_next hc hl hne hfirst,ih hline hmore]
    rfl

/-- It is first found behind them. -/
theorem findSub_after (hc : c∉needle) (hl : l∉needle) (hne : needle≠[]) (hfirst : findSub needle first=none)
    (hmore : ∀line∈more,findSub needle line=none) (hback : needle <+: back) :
    findSub needle (joined c l first more++c::l::back)=some (joined c l first more++[c,l]).length := by
  have hzero : findSub needle back=some 0 := findSub_eq_some.mpr ⟨hback,fun j hj => absurd hj (Nat.not_lt_zero j)⟩
  induction more generalizing first with
  | nil =>
    rw [joined_nil,findSub_next hc hl hne hfirst,hzero,List.length_append]
    rfl
  | cons line more ih =>
    obtain ⟨hline,hmore⟩ := List.forall_mem_cons.mp hmore
    have htail := ih hline hmore
    rw [joined_cons,List.append_assoc,List.cons_append,List.cons_append,findSub_next hc hl hne hfirst,htail]
    simp only [Option.map_some,List.length_append,List.length_cons,List.length_nil]
    congr 1
    omega

/-- The doubled break ends the lines at its first place: none of them is empty. -/
theorem findSub_end (hcl : c≠l) (hfirst : c∉first) (hmore : ∀line∈more,line≠[] ∧ c∉line) (rest : List α) :
    findSub [c,l,c,l] (joined c l first more++([c,l,c,l]++rest))=some (joined c l first more).length := by
  induction more generalizing first with
  | nil =>
    rw [joined_nil]
    exact findSub_first first rest c hfirst
  | cons line more ih =>
    obtain ⟨⟨hne,hline⟩,hrest⟩ := List.forall_mem_cons.mp hmore
    obtain ⟨y,ys,rfl⟩ := List.exists_cons_of_ne_nil hne
    have hy : c≠y := fun he => hline (by rw [he]; exact List.mem_cons_self)
    have hbreak : ∀back,findSub [c,l,c,l] (c::l::y::back)=(findSub [c,l,c,l] (y::back)).map (fun i => i+2) := by
      intro back
      have hone : ¬[c,l,c,l].isPrefixOf (c::l::y::back)=true := by
        simp [List.isPrefixOf_iff_prefix,List.cons_prefix_cons,hy]
      have htwo : ¬[c,l,c,l].isPrefixOf (l::y::back)=true := by
        simp [List.isPrefixOf_iff_prefix,List.cons_prefix_cons,hcl]
      rw [findSub,if_neg hone,findSub,if_neg htwo,Option.map_map]
      rfl
    have hjoined : joined c l (y::ys) more=y::(joined c l ys more) := rfl
    have htail := ih hline hrest
    rw [hjoined,List.cons_append] at htail
    rw [joined_cons,hjoined,List.append_assoc,List.cons_append,List.cons_append,List.cons_append,findSub_past hfirst,hbreak,
      htail]
    simp only [Option.map_some,List.length_append,List.length_cons]

end Search

end Bolina.Breaks
