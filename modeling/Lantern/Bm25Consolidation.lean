import Lantern.Bm25Scores

set_option autoImplicit false

/-!
# Consolidating a term table

`consolidate_bm25_table` is to put the rows of a term together again. Its statements are
texts run by `EXECUTE`, where a name is a column of a table in the statement; the
variables of the function, which the texts name, are not seen there.
-/
namespace Lantern.Bm25Consolidation
open CharText Fallible Bm25Table Bm25Scores

structure Name where
  relation : Option Text
  column : Text
  deriving DecidableEq

inductive Failure where
  | missingFrom (relation : Text)
  | undefinedColumn (column : Text)
  deriving DecidableEq, Repr

structure Source (α : Type) where
  relation : Text
  columns : Text → Option α

def resolve {α : Type} (source : Option (Source α)) (name : Name) : Except Failure α :=
  match source with
  | none =>
    match name.relation with
    | some relation => .error (.missingFrom relation)
    | none => .error (.undefinedColumn name.column)
  | some source =>
    if name.relation.all (· = source.relation) then
      match source.columns name.column with
      | some value => .ok value
      | none => .error (.undefinedColumn name.column)
    else .error (.missingFrom (name.relation.getD []))

def termDupTerm : Name := ⟨some "term_dup".toList, "term".toList⟩

def termRecordTerm : Name := ⟨some "term_record".toList, "term".toList⟩

def insertedNames : List Name :=
  [termRecordTerm, ⟨none, "merged_doc_ids".toList⟩, ⟨none, "merged_fqs".toList⟩,
    ⟨none, "merged_doc_lens".toList⟩, ⟨none, "merged_doc_ids".toList⟩,
    ⟨none, "merged_doc_ids".toList⟩, ⟨none, "new_doc_ids_bloom".toList⟩]

section Statements
variable {Term : Type} [DecidableEq Term] (tableName : Text)

def termColumns : Source (TermRow Term → Term) where
  relation := tableName ++ "_bm25".toList
  columns column := if column = "term".toList then some TermRow.term else none

def limitTo {α : Type} (N : Option ℕ+) (xs : List α) : List α :=
  match N with
  | some n => xs.take n
  | none => xs

def selectRows (name : Name) (N : Option ℕ+) (rows : List (TermRow Term)) :
    Except Failure (List (TermRow Term)) :=
  (resolve (some (termColumns tableName)) name).map fun value =>
    limitTo N (rows.filter fun row => row.term = value row)

def deleteRows (name : Name) (rows : List (TermRow Term)) : Except Failure (List (TermRow Term)) :=
  (resolve (some (termColumns tableName)) name).map fun value => rows.filter fun row =>
    row.term ≠ value row

def insertRow (names : List Name) (row : TermRow Term) (rows : List (TermRow Term)) :
    Except Failure (List (TermRow Term)) :=
  (names.mapM (resolve (none : Option (Source Unit)))).map fun _ => rows ++ [row]

structure Merged where
  docIds : List ℤ
  fqs : List ℕ
  docLens : List ℕ

def Merged.cat (m : Merged) (row : TermRow Term) : Merged :=
  ⟨m.docIds ++ row.docIds, m.fqs ++ row.fqs, m.docLens ++ row.docLens⟩

def consolidatedRow (arrayToBloom : List ℤ → Bloom) (threshold : ℕ) (term : Term) (m : Merged) :
    TermRow Term where
  term := term
  termFreq := m.docIds.length
  docIdsLen := m.docIds.length
  docIdsBloom := if threshold < m.docIds.length then some (arrayToBloom m.docIds) else none
  docIds := m.docIds
  fqs := m.fqs
  docLens := m.docLens

def consolidateTerm (arrayToBloom : List ℤ → Bloom) (threshold : ℕ) (N : Option ℕ+)
    (rows : List (TermRow Term)) (term : Term) : Except Failure (List (TermRow Term)) :=
  -- the names in the three statements are meant for variables of the function
  (selectRows tableName termDupTerm N rows).bind fun found =>
    let merged := found.foldl Merged.cat ⟨[], [], []⟩
    (deleteRows tableName termRecordTerm rows).bind fun rest =>
      insertRow insertedNames (consolidatedRow arrayToBloom threshold term merged) rest

/-- `SELECT term ... GROUP BY term HAVING COUNT(*) > 1`; the groups come in any order. The row for
    the corpus is the only one of its group. -/
def duplicatedTerms (order : HashOrder Term) (rows : List (TermRow Term)) : List Term :=
  order.iter ((rows.map TermRow.term).dedup.filter fun term =>
    1 < (rows.map TermRow.term).count term)

def consolidateBm25Table (order : HashOrder Term) (arrayToBloom : List ℤ → Bloom) (threshold : ℕ)
    (table : TermTable Term) (N : Option ℕ+) : Except Failure (TermTable Term) :=
  ((limitTo N (duplicatedTerms order table.rows)).foldlM
    (consolidateTerm tableName arrayToBloom threshold N)
    table.rows).map fun rows => { table with rows := rows }

end Statements

section Specification
variable {Term : Type} [DecidableEq Term]

def rowsOf (table : TermTable Term) (term : Term) : List (TermRow Term) :=
  table.rows.filter fun row => row.term = term

def postings (table : TermTable Term) (term : Term) : Multiset (ℤ × ℕ × ℕ) :=
  (rowsOf table term).flatMap TermRow.entries

structure Consolidated (terms : List Term) (table result : TermTable Term) : Prop where
  postings : ∀ term, postings result term = postings table term
  one_row : ∀ term ∈ terms, ∃ row, rowsOf result term = [row] ∧
    row.termFreq = (Bm25Consolidation.postings table term).card ∧
    row.docIdsLen = (Bm25Consolidation.postings table term).card
  others : ∀ term ∉ terms, rowsOf result term = rowsOf table term
  corpus : result.corpus = table.corpus

end Specification

section Runs
variable {Term : Type} [DecidableEq Term] {tableName : Text}

omit [DecidableEq Term] in
theorem resolve_termDupTerm :
    resolve (some (@termColumns Term tableName)) termDupTerm =
      .error (.missingFrom "term_dup".toList) := by
  have hname : "term_dup".toList ≠ tableName ++ "_bm25".toList := by
    intro h
    have hlast := congrArg List.getLast? h
    rw [List.getLast?_append] at hlast
    exact absurd hlast (by simp)
  have hother :
      (termDupTerm.relation.all fun r => r = (@termColumns Term tableName).relation) = false :=
    decide_eq_false hname
  unfold resolve
  dsimp only
  rw [hother]
  rfl

variable {order : HashOrder Term}
  {arrayToBloom : List ℤ → Bloom} {threshold : ℕ} {table : TermTable Term} {N : Option ℕ+}

theorem consolidateTerm_eq (rows : List (TermRow Term)) (term : Term) :
    consolidateTerm tableName arrayToBloom threshold N rows term =
      .error (.missingFrom "term_dup".toList) := by
  unfold consolidateTerm selectRows
  rw [resolve_termDupTerm]
  rfl

theorem mem_duplicatedTerms {term : Term} :
    term ∈ duplicatedTerms order table.rows ↔ 1 < (rowsOf table term).length := by
  have hcount : (table.rows.map TermRow.term).count term = (rowsOf table term).length := by
    rw [List.count, List.countP_map, List.countP_eq_length_filter, rowsOf]
    rfl
  rw [duplicatedTerms, (order.perm _).mem_iff, List.mem_filter, List.mem_dedup,
    decide_eq_true_iff, hcount, and_iff_right_iff_imp]
  intro h
  exact List.count_pos_iff.mp (by omega)

theorem limitTo_eq_nil {α : Type} {xs : List α} : limitTo N xs = [] ↔ xs = [] := by
  cases N with
  | none => rfl
  | some n => simp [limitTo]

theorem duplicatedTerms_eq_nil (h : ∀ term, (rowsOf table term).length ≤ 1) :
    duplicatedTerms order table.rows = [] :=
  List.eq_nil_iff_forall_not_mem.mpr fun term hterm =>
    (h term).not_gt (mem_duplicatedTerms.mp hterm)

theorem consolidate_of_single (h : ∀ term, (rowsOf table term).length ≤ 1) :
    consolidateBm25Table tableName order arrayToBloom threshold table N = .ok table := by
  unfold consolidateBm25Table
  rw [limitTo_eq_nil.mpr (duplicatedTerms_eq_nil h)]
  rfl

theorem consolidate_of_duplicate {term : Term} (h : 1 < (rowsOf table term).length) :
    consolidateBm25Table tableName order arrayToBloom threshold table N =
      .error (.missingFrom "term_dup".toList) := by
  have hsome : limitTo N (duplicatedTerms order table.rows) ≠ [] :=
    mt limitTo_eq_nil.mp (List.ne_nil_of_mem (mem_duplicatedTerms.mpr h))
  obtain ⟨first, rest, hterms⟩ := List.exists_cons_of_ne_nil hsome
  unfold consolidateBm25Table
  rw [hterms, List.foldlM_cons, consolidateTerm_eq]
  rfl

/-- The function completes and does what it is for exactly if no term has two rows. -/
theorem consolidates_iff (tableName : Text) (order : HashOrder Term) (arrayToBloom : List ℤ → Bloom)
    (threshold : ℕ) (table : TermTable Term) (N : Option ℕ+) :
    (∃ result, consolidateBm25Table tableName order arrayToBloom threshold table N = .ok result ∧
        Consolidated (limitTo N (duplicatedTerms order table.rows)) table result) ↔
      ∀ term, (rowsOf table term).length ≤ 1 := by
  constructor
  · rintro ⟨result, hresult, -⟩ term
    by_contra hterm
    rw [consolidate_of_duplicate (not_le.mp hterm)] at hresult
    cases hresult
  · intro h
    refine ⟨table, consolidate_of_single h,
      ⟨fun _ => rfl, fun term hterm => ?_, fun _ _ => rfl, rfl⟩⟩
    rw [limitTo_eq_nil.mpr (duplicatedTerms_eq_nil h)] at hterm
    exact absurd hterm List.not_mem_nil

end Runs

def splitTable : TermTable Char where
  rows := [⟨'a', 1, 1, none, [1], [1], [3]⟩, ⟨'a', 1, 1, none, [2], [2], [5]⟩]
  corpus := ⟨2, some 400⟩

theorem splitTable_fails :
    consolidateBm25Table "docs".toList (insertionOrder Char) (fun ids i => i ∈ ids) 8000 splitTable
    none = .error (.missingFrom "term_dup".toList) := by
  have htwo : 1 < (rowsOf splitTable 'a').length := by decide
  exact consolidate_of_duplicate htwo

end Lantern.Bm25Consolidation
