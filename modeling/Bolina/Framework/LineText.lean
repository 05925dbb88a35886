import Mathlib.Data.List.Nodup

/-! A text of lines, each a key and a value with a separator between them. -/

namespace Bolina.LineText

variable {α : Type*} [DecidableEq α]

/-- The lines of a text behind what has been read of the first one. -/
def linesFrom (nl : α) (cur : List α) : List α → List (List α)
  | [] => if cur=[] then [] else [cur]
  | a::rest => if a=nl then cur::linesFrom nl [] rest else linesFrom nl (cur++[a]) rest

def lines (nl : α) (text : List α) : List (List α) := linesFrom nl [] text

/-- A line cut at its first separator. -/
def cut (sep : α) (line : List α) : List α × List α :=
  (line.takeWhile (fun a => a≠sep),(line.dropWhile (fun a => a≠sep)).drop 1)

/-- The keys and values of a text. -/
def table (nl sep : α) (text : List α) : List (List α × List α) := (lines nl text).map (cut sep)

/-- The text of keys and values. -/
def renderTable (nl sep : α) (rows : List (List α × List α)) : List α := rows.flatMap (fun r => r.1++[sep]++r.2++[nl])

variable {nl sep : α} {line rest : List α}

theorem linesFrom_append (cur : List α) (h : nl∉line) :
    linesFrom nl cur (line++nl::rest)=(cur++line)::lines nl rest := by
  induction line generalizing cur with
  | nil =>
    rw [List.nil_append,linesFrom,if_pos rfl,List.append_nil]
    rfl
  | cons a line ih =>
    obtain ⟨ha,hline⟩ := not_or.mp (List.mem_cons.not.mp h)
    rw [List.cons_append,linesFrom,if_neg (Ne.symm ha),ih _ hline,List.append_assoc]
    rfl

theorem lines_append (h : nl∉line) : lines nl (line++nl::rest)=line::lines nl rest := linesFrom_append [] h

theorem cut_append (h : sep∉line) : cut sep (line++sep::rest)=(line,rest) := by
  have hall : ∀a∈line,decide (a≠sep)=true := by
    intro a ha
    rw [decide_eq_true_eq]
    intro he
    exact h (he ▸ ha)
  rw [cut,List.takeWhile_append_of_pos hall,List.dropWhile_append_of_pos hall,List.takeWhile_cons_of_neg (by simp),
    List.dropWhile_cons_of_neg (by simp),List.append_nil]
  rfl

/-- A text gives back its keys and values when no key holds a separator and nothing a line end. -/
theorem table_render (hne : nl≠sep) (rows : List (List α × List α))
    (h : ∀r∈rows,sep∉r.1 ∧ nl∉r.1 ∧ nl∉r.2) : table nl sep (renderTable nl sep rows)=rows := by
  induction rows with
  | nil => rfl
  | cons r rows ih =>
    obtain ⟨⟨hsep,hkey,hval⟩,hrest⟩ := List.forall_mem_cons.mp h
    have hline : nl∉r.1++sep::r.2 := by
      rw [List.mem_append,List.mem_cons,not_or,not_or]
      exact ⟨hkey,hne,hval⟩
    have htext : renderTable nl sep (r::rows)=(r.1++sep::r.2)++nl::renderTable nl sep rows := by
      simp [renderTable]
    rw [table,htext,lines_append hline,List.map_cons,cut_append hsep]
    exact congrArg (List.cons r) (ih hrest)

/-- A key that stands once is found once. -/
theorem filter_key {β : Type*} {rows : List (List α × β)} {k : List α} {v : β} (hn : (rows.map Prod.fst).Nodup)
    (h : (k,v)∈rows) : rows.filter (fun r => r.1=k)=[(k,v)] := by
  induction rows with
  | nil => cases h
  | cons r rows ih =>
    rw [List.map_cons,List.nodup_cons] at hn
    obtain ⟨hr,hn⟩ := hn
    cases List.mem_cons.mp h with
    | inl he =>
      have hnone : rows.filter (fun r => r.1=k)=[] := by
        rw [List.filter_eq_nil_iff]
        intro x hx hk
        apply hr
        rw [← he]
        exact List.mem_map.mpr ⟨x,hx,of_decide_eq_true hk⟩
      rw [List.filter_cons_of_pos (by rw [← he]; simp),hnone,he]
    | inr hmem =>
      have hk : r.1≠k := fun hk => hr (hk ▸ List.mem_map_of_mem hmem)
      rw [List.filter_cons_of_neg (by simpa using hk)]
      exact ih hn hmem

end Bolina.LineText
