import Lantern.Bm25Table
import Lantern.ResultLists

set_option autoImplicit false

/-!
# Scores of documents

`search_bm25` goes through the rows of the query's terms and adds up, for every document
in their arrays, what the terms contribute; it keeps the best documents in a heap.
`bm25_score` takes the text of one document and counts the terms in it. Numbers are
exact and the logarithm is any function.
-/
namespace Lantern.Bm25Scores
open CharText Fallible GroupedRows Bm25Table

/-- Ways to end without a number; an infinite score is not an error of the code. -/
inductive Failure where
  | panicked (message : String)
  | reported (message : String)
  | infinite
  deriving DecidableEq, Repr

section Numbers
variable {K : Type} [Field K] [LinearOrder K]

structure Params (K : Type) where
  ln : K → K
  corpusSize : ℕ
  avgDocLen : K
  k1 : K
  b : K

def Params.idf (p : Params K) (termFreq : K) : K :=
  p.ln ((p.corpusSize - termFreq + 1 / 2) / (termFreq + 1 / 2) + 1)

def Params.divisor (p : Params K) (docLen fq : K) : K :=
  fq + p.k1 * (1 - p.b + p.b * (docLen / p.avgDocLen))

/-- For an average of zero the quotient of the lengths is infinite, and the score is
    zero, or not a number if the length or one of its factors is zero as well. -/
def calculateBm25 (p : Params K) (docLen fq termFreq : K) : Except Failure K :=
  if p.idf termFreq < 0 then .error (.panicked "idf must be non-negative")
  else if p.avgDocLen = 0 then
    if docLen = 0 ∨ p.k1 * p.b = 0 then
      .error (.reported "Encountered NaN in BM25 score calculation") else .ok 0
  else if p.divisor docLen fq = 0 then
    if fq * (p.k1 + 1) = 0 ∨ p.idf termFreq = 0 then
      .error (.reported "Encountered NaN in BM25 score calculation")
    else .error .infinite
  else .ok (p.idf termFreq * (fq * (p.k1 + 1) / p.divisor docLen fq))

def BM25_DEFAULT_K1 : K := 6 / 5

def BM25_DEFAULT_B : K := 3 / 4

/-- `doc_ids_len / 100.0` of the row for the corpus. -/
def avgDocLen (docIdsLen : ℕ) : K := docIdsLen / 100

end Numbers

section Aggregate
variable {K Term : Type} [Field K] [LinearOrder K]

structure Aggregation (K : Type) where
  data : SumMap ℤ K
  blooms : List (K × Bloom)

def scoreEntry (p : Params K) (termFreq : ℕ) (data : SumMap ℤ K) (e : ℤ × ℕ × ℕ) :
    Except Failure (SumMap ℤ K) :=
  (calculateBm25 p e.2.2 e.2.1 termFreq).map fun bm25 => data.add e.1 bm25

/-- Blooms stand in for common terms once there are documents to compare. -/
def stateBase (p : Params K) (s : Aggregation K) (row : TermRow Term) :
    Except Failure (Aggregation K) :=
  match row.docIdsBloom with
  | some bloom =>
    if 100 < s.data.size then
      (calculateBm25 p p.avgDocLen 1 row.termFreq).map fun bm25 =>
        { s with blooms := s.blooms ++ [(bm25, bloom)] }
    else (row.entries.foldlM (scoreEntry p row.termFreq) s.data).map fun data =>
      { s with data := data }
  | none =>
    (row.entries.foldlM (scoreEntry p row.termFreq) s.data).map fun data => { s with data := data }

def aggregateState (p : Params K) (s : Aggregation K) (row : TermRow Term) :
    Except Failure (Aggregation K) :=
  if p.corpusSize = 0 then .error (.reported "bm25_agg aggregate called with negative corpus_size")
  else if p.avgDocLen < 0 then
    .error (.reported "bm25_agg aggregate called with negative avg_doc_len")
  else stateBase p s row

structure HashOrder (α : Type) where
  iter : List α → List α
  perm : ∀ entries, (iter entries).Perm entries

def withBlooms (blooms : List (K × Bloom)) (e : ℤ × K) : ℤ × K :=
  (e.1, e.2 + ((blooms.filter fun bloom => bloom.2 e.1).map Prod.fst).sum)

def finalizeBase (order : HashOrder (ℤ × K)) (limit : ℕ) (s : Aggregation K) :
    Except Failure (List (ℤ × K)) :=
  match (order.iter s.data.entries).foldlM (keepBest (limit * 10)) [] with
  | none => .error (.panicked "called Option::unwrap() on a None value")
  | some heap =>
    .ok (((heap.map (withBlooms s.blooms)).insertionSort fun a b => b.2 ≤ a.2).take limit)

variable [DecidableEq Term] (stem : Text → List Term)

def termsOf (table : TermTable Term) (query : Text) : List (TermRow Term) :=
  table.rows.filter fun row => row.term ∈ stem query

def aggregated (ln : K → K) (order : HashOrder (ℤ × K)) (table : TermTable Term)
    (query : Text) (limit : ℕ) :
    Except Failure (List (ℤ × K)) :=
  let terms := (termsOf stem table query).insertionSort fun a b => a.docIdsLen ≤ b.docIdsLen
  let run (avgDocLen : K) :=
    terms.foldlM (aggregateState ⟨ln, table.corpus.termFreq, avgDocLen, 6 / 5,
      3 / 4⟩) ⟨SumMap.empty, []⟩
  match table.corpus.docIdsLen with
  | some len => (run (avgDocLen len)).bind (finalizeBase order limit)
  | none => if terms = [] then .ok [] else .error (.panicked "unwrapping a null argument")

/-- Where the content is joined the rows come in the order of the join. -/
def searchBm25 (ln : K → K) (order : HashOrder (ℤ × K)) (joinContent : Option (HashOrder (ℤ × K)))
    (table : TermTable Term) (query : Text) (limit : ℕ) : Except Failure (List (ℤ × K)) :=
  (aggregated stem ln order table query limit).map fun agg =>
    joinContent.elim agg fun join => join.iter agg

def interpolate (text rest : Text) : Except Failure Text :=
  match readQuoted apostrophe (text ++ apostrophe :: rest) with
  | some (literal, after) =>
    if after = rest then .ok literal else .error (.reported "another statement")
  | none => .error (.reported "unterminated quoted string")

def scoreTerm (p : Params K) (threshold : ℕ) (document : List Term) (bm25 : K)
    (row : TermRow Term) : Except Failure K :=
  let fq := document.count row.term
  let score :=
    if threshold < row.termFreq then calculateBm25 p p.avgDocLen (if 1 < fq then 1
      else fq) row.termFreq
    else calculateBm25 p document.length fq row.termFreq
  score.map fun x => bm25 + x

def bm25Score (ln : K → K) (threshold : ℕ) (table : TermTable Term) (document query : Text) :
    Except Failure K :=
  (interpolate document [')']).bind fun document =>
    match table.corpus.docIdsLen with
    | none => .error (.panicked "Failed to get corpus size and avg doc len")
    | some len =>
      (interpolate query [')', ')', ';']).bind fun query =>
        (termsOf stem table query).foldlM
          (scoreTerm ⟨ln, table.corpus.termFreq, avgDocLen len, BM25_DEFAULT_K1,
            BM25_DEFAULT_B⟩ threshold (stem document))
          0

end Aggregate

theorem joined_perm {α : Type} (joinContent : Option (HashOrder α)) (agg : List α) :
    (joinContent.elim agg fun join => join.iter agg).Perm agg := by
  cases joinContent with
  | none => exact List.Perm.refl _
  | some join => exact join.perm agg

theorem interpolate_eq_ok {text rest : Text} (htext : apostrophe ∉ text)
    (hrest : rest.head? ≠ some apostrophe) :
    interpolate text rest = .ok text := by
  unfold interpolate
  rw [readQuoted_append htext hrest]
  exact if_pos rfl

section Values
variable {K : Type} [Field K] [LinearOrder K] [IsStrictOrderedRing K]

def Params.value (p : Params K) (docLen fq termFreq : K) : K :=
  if p.avgDocLen = 0 then 0 else p.idf termFreq * (fq * (p.k1 + 1) / p.divisor docLen fq)

structure Params.Valid (p : Params K) : Prop where
  k1_pos : 0 < p.k1
  b_pos : 0 < p.b
  b_lt_one : p.b < 1
  avg_nonneg : 0 ≤ p.avgDocLen

variable {p : Params K}

theorem Params.Valid.divisor_pos (hp : p.Valid) {docLen fq : K} (hlen : 0 ≤ docLen) (hfq : 0 ≤ fq) :
    0 < p.divisor docLen fq := by
  have hquot : 0 ≤ p.b * (docLen / p.avgDocLen) :=
    mul_nonneg hp.b_pos.le (div_nonneg hlen hp.avg_nonneg)
  have hinner : 0 < 1 - p.b + p.b * (docLen / p.avgDocLen) :=
    add_pos_of_pos_of_nonneg (sub_pos.mpr hp.b_lt_one) hquot
  exact add_pos_of_nonneg_of_pos hfq (mul_pos hp.k1_pos hinner)

theorem calculateBm25_eq_ok (hp : p.Valid) {docLen fq termFreq v : K} (hlen : 0 < docLen)
    (hfq : 0 ≤ fq) :
    calculateBm25 p docLen fq termFreq = .ok v ↔ 0 ≤ p.idf termFreq ∧
      v = p.value docLen fq termFreq := by
  have hdivisor := (hp.divisor_pos hlen.le hfq).ne'
  unfold calculateBm25 Params.value
  by_cases hidf : p.idf termFreq < 0
  · rw [if_pos hidf]
    simp [hidf]
  · have hfactors : ¬ (docLen = 0 ∨ p.k1 * p.b = 0) :=
      not_or.mpr ⟨hlen.ne', (mul_pos hp.k1_pos hp.b_pos).ne'⟩
    rw [if_neg hidf, if_neg hfactors, if_neg hdivisor]
    split_ifs
    · simp only [Except.ok.injEq, not_lt.mp hidf, true_and]
      exact eq_comm
    · simp only [Except.ok.injEq, not_lt.mp hidf, true_and]
      exact eq_comm

theorem idf_nonneg_of_le (hln : ∀ x, 1 ≤ x → 0 ≤ p.ln x) {termFreq : ℕ}
    (hle : termFreq ≤ p.corpusSize) :
    0 ≤ p.idf termFreq := by
  have hcorpus : (termFreq : K) ≤ p.corpusSize := by exact_mod_cast hle
  have hfreq : (0 : K) ≤ termFreq := Nat.cast_nonneg _
  have hhalf : (0 : K) < 1 / 2 := by norm_num
  apply hln
  apply le_add_of_nonneg_left
  apply div_nonneg
  · exact add_nonneg (sub_nonneg.mpr hcorpus) hhalf.le
  · exact add_nonneg hfreq hhalf.le

omit [IsStrictOrderedRing K] in
theorem eq_value_of_calculateBm25 {docLen fq termFreq v : K}
    (h : calculateBm25 p docLen fq termFreq = .ok v) :
    v = p.value docLen fq termFreq := by
  unfold calculateBm25 at h
  unfold Params.value
  split_ifs at h ⊢
  · exact (Except.ok.inj h).symm
  · exact (Except.ok.inj h).symm

omit [IsStrictOrderedRing K] in
theorem Params.value_zero (p : Params K) (docLen termFreq : K) : p.value docLen 0 termFreq = 0 := by
  unfold value
  split_ifs
  · rfl
  · rw [zero_mul, zero_div, mul_zero]

end Values

section Contributions
variable {K Term : Type} [Field K] [LinearOrder K] [IsStrictOrderedRing K]

def contributions (p : Params K) (row : TermRow Term) : List (ℤ × K) :=
  row.entries.map fun e => (e.1, p.value e.2.2 e.2.1 row.termFreq)

variable {p : Params K}

def Accepted (p : Params K) (row : TermRow Term) : Prop :=
  p.corpusSize ≠ 0 ∧ 0 ≤ p.avgDocLen ∧
    ∀ e ∈ row.entries, ∃ v, calculateBm25 p e.2.2 e.2.1 row.termFreq = .ok v

omit [IsStrictOrderedRing K] in
theorem aggregateState_ok_iff {row : TermRow Term} (hbloom : row.docIdsBloom = none)
    (s t : Aggregation K) :
    aggregateState p s row = .ok t ↔ Accepted p row ∧ t =
      { s with data := s.data.addAll (contributions p row) } := by
  have hentry : ∀ e ∈ row.entries, ∀ data data', scoreEntry p row.termFreq data e = .ok data' ↔
      (∃ v, calculateBm25 p e.2.2 e.2.1 row.termFreq = .ok v) ∧
        data' = data.add e.1 (p.value e.2.2 e.2.1 row.termFreq) := by
    intro e _ data data'
    unfold scoreEntry
    refine map_eq_ok_of fun v => ⟨fun h => ⟨⟨v, h⟩, eq_value_of_calculateBm25 h⟩, ?_⟩
    rintro ⟨⟨x, hx⟩, rfl⟩
    rw [hx, eq_value_of_calculateBm25 hx]
  have hsum : ∀ data : SumMap ℤ K, row.entries.foldl
      (fun data e => data.add e.1 (p.value e.2.2 e.2.1 row.termFreq)) data =
        data.addAll (contributions p row) := by
    intro data
    unfold contributions SumMap.addAll
    rw [List.foldl_map]
  unfold aggregateState stateBase Accepted
  by_cases hcorpus : p.corpusSize = 0
  · simp [hcorpus]
  by_cases havg : p.avgDocLen < 0
  · simp [hcorpus, havg, not_le.mpr havg]
  rw [if_neg hcorpus, if_neg havg, hbloom]
  dsimp only
  rw [map_eq_ok_of fun _ => foldlM_eq_ok hentry, hsum, ← not_lt]
  simp only [ne_eq, hcorpus, havg, not_false_eq_true, true_and]

theorem aggregateState_eq_ok (hp : p.Valid) (hcorpus : p.corpusSize ≠ 0) {row : TermRow Term}
    (hbloom : row.docIdsBloom = none) (hne : row.entries ≠ [])
    (hlens : ∀ e ∈ row.entries, 0 < e.2.2) (s t : Aggregation K) :
    aggregateState p s row = .ok t ↔
      0 ≤ p.idf row.termFreq ∧ t = { s with data := s.data.addAll (contributions p row) } := by
  have hscore : ∀ e ∈ row.entries, (∃ v, calculateBm25 p e.2.2 e.2.1 row.termFreq = .ok v) ↔
      0 ≤ p.idf row.termFreq := by
    intro e he
    have hlen : (0 : K) < e.2.2 := by exact_mod_cast hlens e he
    simp only [calculateBm25_eq_ok hp hlen (Nat.cast_nonneg _), exists_and_left,
      exists_eq, and_true]
  have haccepted : Accepted p row ↔ 0 ≤ p.idf row.termFreq := by
    obtain ⟨e, he⟩ := List.exists_mem_of_ne_nil _ hne
    exact ⟨fun h => (hscore e he).mp (h.2.2 e he), fun h =>
      ⟨hcorpus, hp.avg_nonneg, fun e he => (hscore e he).mpr h⟩⟩
  rw [aggregateState_ok_iff hbloom, haccepted]

omit [IsStrictOrderedRing K] in
theorem foldl_contributions (rows : List (TermRow Term)) (s : Aggregation K) :
    rows.foldl (fun s row => { s with data := s.data.addAll (contributions p row) }) s =
      { s with data := s.data.addAll (rows.flatMap (contributions p)) } := by
  induction rows generalizing s with
  | nil => rfl
  | cons row rows ih => rw [List.foldl_cons, ih, List.flatMap_cons, SumMap.addAll_append]

variable [DecidableEq Term]

def totalScore (p : Params K) (document : List Term) (rows : List (TermRow Term)) : K :=
  (rows.map fun row => p.value document.length (document.count row.term) row.termFreq).sum

theorem scoreTerm_eq_ok (hp : p.Valid) {threshold : ℕ} {document : List Term} (hdoc : document ≠ [])
    {row : TermRow Term} (hfreq : row.termFreq ≤ threshold) (bm25 v : K) :
    scoreTerm p threshold document bm25 row = .ok v ↔ 0 ≤ p.idf row.termFreq ∧
      v = bm25 + p.value document.length (document.count row.term) row.termFreq := by
  have hlen : (0 : K) < document.length := by exact_mod_cast List.length_pos_of_ne_nil hdoc
  unfold scoreTerm
  dsimp only
  rw [if_neg hfreq.not_gt]
  exact map_eq_ok_of fun _ => calculateBm25_eq_ok hp hlen (Nat.cast_nonneg _)

theorem foldlM_scoreTerm (hp : p.Valid) {threshold : ℕ} {document : List Term}
    (hdoc : document ≠ []) {rows : List (TermRow Term)}
    (hfreq : ∀ row ∈ rows, row.termFreq ≤ threshold) (hidf : ∀ row ∈ rows, 0 ≤ p.idf row.termFreq) :
    rows.foldlM (scoreTerm p threshold document) 0 = .ok (totalScore p document rows) := by
  refine (foldlM_eq_ok fun row hrow => scoreTerm_eq_ok hp hdoc (hfreq row hrow)).mpr ⟨hidf, ?_⟩
  rw [totalScore, List.sum_eq_foldl, List.foldl_map]

end Contributions

section Created
variable {K Term : Type} [Field K] [LinearOrder K] [IsStrictOrderedRing K] [DecidableEq Term]

/-- The table as it was created; its rows may come in any order. -/
structure IsTableOf (stem : Text → List Term) (arrayToBloom : List ℤ → Bloom) (threshold : ℕ)
    (documents : DocumentTable) (table : TermTable Term) : Prop where
  rows : table.rows.Perm (createBm25Table stem arrayToBloom threshold documents).rows
  corpus : table.corpus = (createBm25Table stem arrayToBloom threshold documents).corpus

variable {stem : Text → List Term}
  {arrayToBloom : List ℤ → Bloom} {threshold : ℕ} {documents : DocumentTable}
  {table : TermTable Term}

theorem IsTableOf.mem_rows (h : IsTableOf stem arrayToBloom threshold documents table)
    {row : TermRow Term} :
    row ∈ table.rows ↔ ∃ term, (∃ d ∈ documents.documents, term ∈ d.stems stem) ∧
      row = termRow stem arrayToBloom threshold documents term :=
  h.rows.mem_iff.trans mem_createBm25Table

theorem IsTableOf.docIdsLen (h : IsTableOf stem arrayToBloom threshold documents table)
    {row : TermRow Term} (hrow : row ∈ table.rows) : ∃ len, table.corpus.docIdsLen = some len := by
  obtain ⟨term, ⟨d, hd, hterm⟩, -⟩ := h.mem_rows.mp hrow
  obtain ⟨text, htext, -⟩ := text_of_stems hterm
  have hmem : (stem text).length ∈ documents.documents.filterMap fun d =>
      (d.column stem).map List.length := by
    refine List.mem_filterMap.mpr ⟨d, hd, ?_⟩
    rw [Document.column, htext]
    rfl
  rw [h.corpus]
  exact ⟨_, if_neg (List.ne_nil_of_mem hmem)⟩

theorem IsTableOf.corpus_pos (h : IsTableOf stem arrayToBloom threshold documents table)
    {row : TermRow Term} (hrow : row ∈ table.rows) : row.termFreq ≤ table.corpus.termFreq ∧
      table.corpus.termFreq ≠ 0 := by
  obtain ⟨term, ⟨d, hd, -⟩, rfl⟩ := h.mem_rows.mp hrow
  rw [h.corpus]
  exact ⟨termGroup_length_le term, (List.length_pos_of_mem hd).ne'⟩

theorem IsTableOf.row_entries (h : IsTableOf stem arrayToBloom threshold documents table)
    {row : TermRow Term} (hrow : row ∈ table.rows) : row.entries ≠ [] ∧
      (∀ e ∈ row.entries, 0 < e.2.2) ∧
      (row.termFreq ≤ threshold → row.docIdsBloom = none) := by
  obtain ⟨term, ⟨d, hd, hterm⟩, rfl⟩ := h.mem_rows.mp hrow
  rw [entries_termRow]
  refine ⟨?_, ?_, ?_⟩
  · have hmem : (d, term) ∈ termGroup stem documents term := mem_termGroup.mpr ⟨rfl, hd, hterm⟩
    exact List.ne_nil_of_mem (List.mem_map_of_mem hmem)
  · intro e he
    obtain ⟨q, hq, rfl⟩ := List.mem_map.mp he
    exact List.length_pos_of_mem (mem_termGroup.mp hq).2.2
  · intro hfreq
    apply if_neg
    rw [List.length_map]
    exact hfreq.not_gt

variable {p : Params K}

omit [IsStrictOrderedRing K] in
theorem sum_contributions (h : IsTableOf stem arrayToBloom threshold documents table)
    {row : TermRow Term} (hrow : row ∈ table.rows) {d : Document} (hd : d ∈ documents.documents) :
    (((contributions p row).filter fun e => e.1 = d.id).map Prod.snd).sum =
      p.value (d.stems stem).length ((d.stems stem).count row.term) row.termFreq := by
  obtain ⟨term, -, rfl⟩ := h.mem_rows.mp hrow
  unfold contributions
  rw [List.filter_map]
  have hfilter := @filter_entries d Term stem _ documents arrayToBloom threshold term hd
  change ((((termRow stem arrayToBloom threshold documents term).entries.filter fun e =>
    e.1 = d.id).map _).map _).sum = _
  rw [hfilter]
  split_ifs with hterm
  · simp [termRow]
  · have hzero :
        (d.stems stem).count (termRow stem arrayToBloom threshold documents term).term = 0 :=
      List.count_eq_zero.mpr hterm
    rw [hzero, Nat.cast_zero, Params.value_zero]
    rfl

omit [IsStrictOrderedRing K] in
theorem get_contributions (h : IsTableOf stem arrayToBloom threshold documents table)
    {rows : List (TermRow Term)} (hrows : rows ⊆ table.rows) {d : Document}
    (hd : d ∈ documents.documents) :
    (SumMap.empty.addAll (rows.flatMap (contributions p))).get d.id =
      totalScore p (d.stems stem) rows := by
  rw [SumMap.get_addAll]
  have hempty : (SumMap.empty : SumMap ℤ K).get d.id = 0 := rfl
  rw [hempty, zero_add]
  induction rows with
  | nil => rfl
  | cons row rows ih =>
    rw [List.cons_subset] at hrows
    rw [List.flatMap_cons, List.filter_append, List.map_append, List.sum_append, ih hrows.2,
      sum_contributions h hrows.1 hd]
    rfl

omit [IsStrictOrderedRing K] in
theorem mem_keys_contributions (h : IsTableOf stem arrayToBloom threshold documents table)
    {rows : List (TermRow Term)} (hrows : rows ⊆ table.rows) {i : ℤ} :
    i ∈ (SumMap.empty.addAll (rows.flatMap (contributions p))).entries.map Prod.fst ↔
      ∃ d ∈ documents.documents, d.id = i ∧ ∃ row ∈ rows, row.term ∈ d.stems stem := by
  have hkeys : ∀ row ∈ rows, i ∈ (contributions p row).map Prod.fst ↔
      ∃ d ∈ documents.documents, d.id = i ∧ row.term ∈ d.stems stem := by
    intro row hrow
    obtain ⟨term, -, rfl⟩ := h.mem_rows.mp (hrows hrow)
    unfold contributions
    rw [List.map_map, entries_termRow, List.map_map, List.mem_map]
    constructor
    · rintro ⟨q, hq, rfl⟩
      obtain ⟨-, hmem, hterm⟩ := mem_termGroup.mp hq
      exact ⟨q.1, hmem, rfl, hterm⟩
    · rintro ⟨d, hd, rfl, hterm⟩
      exact ⟨(d, term), mem_termGroup.mpr ⟨rfl, hd, hterm⟩, rfl⟩
  rw [SumMap.mem_keys_addAll, List.map_flatMap, List.mem_flatMap]
  constructor
  · rintro (hnil | ⟨row, hrow, hmem⟩)
    · exact absurd hnil List.not_mem_nil
    · obtain ⟨d, hd, hid, hterm⟩ := (hkeys row hrow).mp hmem
      exact ⟨d, hd, hid, row, hrow, hterm⟩
  · rintro ⟨d, hd, hid, row, hrow, hterm⟩
    exact Or.inr ⟨row, hrow, (hkeys row hrow).mpr ⟨d, hd, hid, hterm⟩⟩

omit [IsStrictOrderedRing K] in
theorem finalizeBase_selects (order : HashOrder (ℤ × K)) {limit : ℕ} (hlimit : 1 ≤ limit)
    (data : SumMap ℤ K) :
    ∃ results, finalizeBase order limit ⟨data, []⟩ = .ok results ∧
      results.Pairwise (fun a b => b.2 ≤ a.2) ∧ Selects limit data.entries results := by
  obtain ⟨heap, hheap, -, hselects⟩ :=
    foldlM_keepBest (by omega : 0 < limit * 10) (order.iter data.entries)
  have hblooms : heap.map (withBlooms []) = heap := by
    have hid : (withBlooms [] : ℤ × K → ℤ × K) = id := funext fun e => Prod.ext rfl (add_zero e.2)
    rw [hid, List.map_id]
  have hsorted := falling_insertionSort heap
  refine ⟨_, ?_, hsorted.sublist (List.take_sublist limit _), ?_⟩
  · unfold finalizeBase
    rw [hheap]
    dsimp only
    rw [hblooms]
  · exact (hselects.of_perm (order.perm _)).take (by omega) (List.perm_insertionSort _ heap) hsorted

def tableParams (ln : K → K) (table : TermTable Term) (len : ℕ) : Params K :=
  ⟨ln, table.corpus.termFreq, avgDocLen len, 6 / 5, 3 / 4⟩

omit [DecidableEq Term] in
theorem tableParams_valid (ln : K → K) (table : TermTable Term) (len : ℕ) :
    (tableParams ln table len).Valid where
  k1_pos := by norm_num [tableParams]
  b_pos := by norm_num [tableParams]
  b_lt_one := by norm_num [tableParams]
  avg_nonneg := div_nonneg (Nat.cast_nonneg len) (by norm_num)

def searchSums (stem : Text → List Term) (p : Params K) (table : TermTable Term) (query : Text) :
    SumMap ℤ K :=
  SumMap.empty.addAll
    (((termsOf stem table query).insertionSort fun a b =>
      a.docIdsLen ≤ b.docIdsLen).flatMap (contributions p))

def Uncommon (stem : Text → List Term) (threshold : ℕ) (table : TermTable Term) (query : Text) :
    Prop :=
  ∀ row ∈ termsOf stem table query, row.termFreq ≤ threshold

variable {ln : K → K} {query : Text} {len : ℕ}

theorem aggregated_eq_ok (h : IsTableOf stem arrayToBloom threshold documents table)
    (huncommon : Uncommon stem threshold table query) (hlen : table.corpus.docIdsLen = some len)
    (order : HashOrder (ℤ × K)) {limit : ℕ} {results : List (ℤ × K)} :
    aggregated stem ln order table query limit = .ok results ↔
      (∀ row ∈ termsOf stem table query, 0 ≤ (tableParams ln table len).idf row.termFreq) ∧
        finalizeBase order limit ⟨searchSums stem (tableParams ln table len) table query, []⟩ =
          .ok results := by
  have hstep :
      ∀ row ∈ (termsOf stem table query).insertionSort (fun a b =>
      a.docIdsLen ≤ b.docIdsLen), ∀ s t, aggregateState (tableParams ln table len) s row = .ok t ↔
        0 ≤ (tableParams ln table len).idf row.termFreq ∧
          t = { s with data := s.data.addAll (contributions (tableParams ln table len) row) } := by
    intro row hrow
    have hterm := (List.mem_insertionSort _).mp hrow
    have hmem : row ∈ table.rows := List.mem_of_mem_filter hterm
    obtain ⟨hne, hlens, hbloom⟩ := h.row_entries hmem
    exact aggregateState_eq_ok (tableParams_valid ln table len) (h.corpus_pos hmem).2
      (hbloom (huncommon row hterm))
      hne hlens
  unfold aggregated
  rw [hlen]
  dsimp only
  rw [bind_eq_ok]
  have hfold :
      ∀ s, List.foldlM (aggregateState ⟨ln, table.corpus.termFreq, avgDocLen len, 6 / 5, 3 / 4⟩)
      ⟨SumMap.empty, []⟩ ((termsOf stem table query).insertionSort fun a b =>
        a.docIdsLen ≤ b.docIdsLen) = .ok s ↔ _ :=
    fun s => @foldlM_eq_ok Failure (TermRow Term) _ _ _ _ _ hstep ⟨SumMap.empty, []⟩ s
  simp only [hfold, foldl_contributions, List.mem_insertionSort]
  constructor
  · rintro ⟨_, ⟨hidf, rfl⟩, hfinal⟩
    exact ⟨hidf, hfinal⟩
  · rintro ⟨hidf, hfinal⟩
    exact ⟨_, ⟨hidf, rfl⟩, hfinal⟩

theorem bm25Score_eq_ok (huncommon : Uncommon stem threshold table query)
    (hlen : table.corpus.docIdsLen = some len) (hquery : apostrophe ∉ query)
    (hidf : ∀ row ∈ termsOf stem table query, 0 ≤ (tableParams ln table len).idf row.termFreq)
    {text : Text} (htext : apostrophe ∉ text) (hstems : stem text ≠ []) :
    bm25Score stem ln threshold table text query =
      .ok (totalScore (tableParams ln table len) (stem text) (termsOf stem table query)) := by
  unfold bm25Score
  rw [interpolate_eq_ok htext (by decide), hlen]
  change (interpolate query _).bind _ = _
  rw [interpolate_eq_ok hquery (by decide)]
  exact foldlM_scoreTerm (tableParams_valid ln table len) hstems huncommon hidf

omit [IsStrictOrderedRing K] in
theorem totalScore_perm {document : List Term} {rows rows' : List (TermRow Term)}
    (h : rows.Perm rows') :
    totalScore p document rows = totalScore p document rows' := (h.map _).sum_eq

omit [IsStrictOrderedRing K] in
theorem get_searchSums (h : IsTableOf stem arrayToBloom threshold documents table) {d : Document}
    (hd : d ∈ documents.documents) :
    (searchSums stem p table query).get d.id = totalScore p (d.stems stem)
      (termsOf stem table query) := by
  have hsub : (termsOf stem table query).insertionSort (fun a b => a.docIdsLen ≤ b.docIdsLen) ⊆
      table.rows :=
    fun row hrow => List.mem_of_mem_filter ((List.mem_insertionSort _).mp hrow)
  exact (get_contributions h hsub hd).trans (totalScore_perm (List.perm_insertionSort _ _))

omit [IsStrictOrderedRing K] in
theorem mem_keys_searchSums (h : IsTableOf stem arrayToBloom threshold documents table) {i : ℤ} :
    i ∈ (searchSums stem p table query).entries.map Prod.fst ↔
      ∃ d ∈ documents.documents, d.id = i ∧
        ∃ row ∈ termsOf stem table query, row.term ∈ d.stems stem := by
  have hsub : (termsOf stem table query).insertionSort (fun a b => a.docIdsLen ≤ b.docIdsLen) ⊆
      table.rows :=
    fun row hrow => List.mem_of_mem_filter ((List.mem_insertionSort _).mp hrow)
  refine (mem_keys_contributions h hsub).trans ?_
  simp only [List.mem_insertionSort]

theorem searchSums_eq_bm25Score {searched scored : TermTable Term}
    (hsearched : IsTableOf stem arrayToBloom threshold documents searched)
    (hscored : IsTableOf stem arrayToBloom threshold documents scored)
    (huncommon : Uncommon stem threshold searched query) (hquery : apostrophe ∉ query)
    (hlen : searched.corpus.docIdsLen = some len)
    (hidf : ∀ row ∈ termsOf stem searched query, 0 ≤ (tableParams ln searched len).idf row.termFreq)
    {d : Document} (hd : d ∈ documents.documents) {text : Text} (htext : d.text = some text)
    (hquote : apostrophe ∉ text) (hstems : d.stems stem ≠ []) :
    bm25Score stem ln threshold scored text query =
      .ok ((searchSums stem (tableParams ln searched len) searched query).get d.id) := by
  have hcorpus : scored.corpus = searched.corpus := hscored.corpus.trans hsearched.corpus.symm
  have hterms : (termsOf stem scored query).Perm (termsOf stem searched query) :=
    (hscored.rows.trans hsearched.rows.symm).filter _
  have hparams : tableParams ln scored len = tableParams ln searched len := by
    unfold tableParams
    rw [hcorpus]
  have hcolumn : d.stems stem = stem text := by
    unfold Document.stems Document.column
    rw [htext]
    rfl
  rw [hcolumn] at hstems
  rw [get_searchSums hsearched hd, hcolumn, ← totalScore_perm hterms, ← hparams]
  apply bm25Score_eq_ok (fun row hrow =>
    huncommon row (hterms.mem_iff.mp hrow)) (hcorpus ▸ hlen) hquery
  · intro row hrow
    rw [hparams]
    exact hidf row (hterms.mem_iff.mp hrow)
  · exact hquote
  · exact hstems

theorem idf_nonneg (hln : ∀ x, 1 ≤ x → 0 ≤ ln x)
    (h : IsTableOf stem arrayToBloom threshold documents table) {row : TermRow Term}
    (hrow : row ∈ table.rows) : 0 ≤ (tableParams ln table len).idf row.termFreq :=
  idf_nonneg_of_le hln (h.corpus_pos hrow).1

omit [IsStrictOrderedRing K] in
theorem aggregated_cases (h : IsTableOf stem arrayToBloom threshold documents table)
    (order : HashOrder (ℤ × K)) (limit : ℕ) : (∃ len, table.corpus.docIdsLen = some len) ∨
      aggregated stem ln order table query limit = .ok [] ∧ termsOf stem table query = [] := by
  cases hlen : table.corpus.docIdsLen with
  | some len => exact Or.inl ⟨len, rfl⟩
  | none =>
    have hnone : termsOf stem table query = [] := by
      apply List.eq_nil_iff_forall_not_mem.mpr
      intro row hrow
      obtain ⟨len, hsome⟩ := h.docIdsLen (List.mem_of_mem_filter hrow)
      rw [hlen] at hsome
      cases hsome
    refine Or.inr ⟨?_, hnone⟩
    unfold aggregated
    rw [hlen, hnone]
    rfl

theorem aggregated_selects (h : IsTableOf stem arrayToBloom threshold documents table)
    (huncommon : Uncommon stem threshold table query) (hlen : table.corpus.docIdsLen = some len)
    {order : HashOrder (ℤ × K)} {limit : ℕ} (hlimit : 1 ≤ limit) {results : List (ℤ × K)}
    (hresults : aggregated stem ln order table query limit = .ok results) :
    (∀ row ∈ termsOf stem table query, 0 ≤ (tableParams ln table len).idf row.termFreq) ∧
      results.Pairwise (fun a b => b.2 ≤ a.2) ∧
        Selects limit (searchSums stem (tableParams ln table len) table query).entries results := by
  obtain ⟨found, hfinal, hfalling, hselects⟩ :=
    finalizeBase_selects order hlimit (searchSums stem (tableParams ln table len) table query)
  obtain ⟨hidf, hrun⟩ := (aggregated_eq_ok h huncommon hlen order).mp hresults
  cases hfinal.symm.trans hrun
  exact ⟨hidf, hfalling, hselects⟩

theorem searchBm25_returns (order : HashOrder (ℤ × K)) (joinContent : Option (HashOrder (ℤ × K)))
    (h : IsTableOf stem arrayToBloom threshold documents table)
    (huncommon : Uncommon stem threshold table query) (hln : ∀ x, 1 ≤ x → 0 ≤ ln x) {limit : ℕ}
    (hlimit : 1 ≤ limit) :
    ∃ results, searchBm25 stem ln order joinContent table query limit = .ok results := by
  unfold searchBm25
  rcases @aggregated_cases K Term _ _ _ stem arrayToBloom threshold documents table ln
    query h order limit
    with ⟨len, hlen⟩ | ⟨hnil, -⟩
  · obtain ⟨found, hfinal, -⟩ :=
      finalizeBase_selects order hlimit (searchSums stem (tableParams ln table len) table query)
    have hidf : ∀ row ∈ termsOf stem table query, 0 ≤ (tableParams ln table len).idf row.termFreq :=
      fun row hrow => idf_nonneg hln h (List.mem_of_mem_filter hrow)
    rw [(aggregated_eq_ok h huncommon hlen order).mpr ⟨hidf, hfinal⟩]
    exact ⟨_, rfl⟩
  · rw [hnil]
    exact ⟨_, rfl⟩

/-- A search with a logarithm that is not negative from one on returns, and every
    score in its result is the one that `bm25_score` gives to the document's text. -/
theorem search_scores_agree (ln : K → K) (order : HashOrder (ℤ × K))
    (joinContent : Option (HashOrder (ℤ × K))) {searched scored : TermTable Term}
    (hsearched : IsTableOf stem arrayToBloom threshold documents searched)
    (hscored : IsTableOf stem arrayToBloom threshold documents scored) (hquery : apostrophe ∉ query)
    (huncommon : Uncommon stem threshold searched query) {limit : ℕ} (hlimit : 1 ≤ limit) :
    ((∀ x, 1 ≤ x → 0 ≤ ln x) →
      ∃ results, searchBm25 stem ln order joinContent searched query limit = .ok results) ∧
      ∀ results, searchBm25 stem ln order joinContent searched query limit = .ok results →
        ∀ doc score, (doc, score) ∈ results → ∃ d ∈ documents.documents, d.id = doc ∧
          ∃ text, d.text = some text ∧
            (apostrophe ∉ text → bm25Score stem ln threshold scored text query = .ok score) := by
  refine ⟨fun hln => searchBm25_returns order joinContent hsearched huncommon hln hlimit, ?_⟩
  intro results hresults doc score hmem
  obtain ⟨agg, hagg, rfl⟩ := map_eq_ok.mp hresults
  rw [(joined_perm joinContent agg).mem_iff] at hmem
  rcases @aggregated_cases K Term _ _ _ stem arrayToBloom threshold documents searched ln query
    hsearched order limit
    with ⟨len, hlen⟩ | ⟨hnil, -⟩
  · obtain ⟨hidf, -, hselects⟩ := aggregated_selects hsearched huncommon hlen hlimit hagg
    have hentry := hselects.subset hmem
    obtain ⟨d, hd, rfl, row, -, hterm⟩ :=
      (mem_keys_searchSums hsearched).mp (List.mem_map_of_mem hentry)
    obtain ⟨text, htext, -⟩ := text_of_stems hterm
    refine ⟨d, hd, rfl, text, htext, fun hquote => ?_⟩
    rw [searchSums_eq_bm25Score hsearched hscored huncommon hquery hlen hidf hd htext hquote
      (List.ne_nil_of_mem hterm), SumMap.get_of_mem hentry]
  · cases hnil.symm.trans hagg
    exact absurd hmem List.not_mem_nil

/-- The results are in falling order if nothing is joined to them. A document with a term
    of the query is among them unless there are as many as were asked for and none has a
    lower score. -/
theorem search_keeps_best {order : HashOrder (ℤ × K)} {joinContent : Option (HashOrder (ℤ × K))}
    (h : IsTableOf stem arrayToBloom threshold documents table) (hquery : apostrophe ∉ query)
    (huncommon : Uncommon stem threshold table query) {limit : ℕ} (hlimit : 1 ≤ limit)
    {results : List (ℤ × K)}
    (hresults : searchBm25 stem ln order joinContent table query limit = .ok results) :
    (joinContent = none → results.Pairwise fun a b => b.2 ≤ a.2) ∧
      ∀ d ∈ documents.documents, ∀ text, d.text = some text → apostrophe ∉ text →
        (∃ row ∈ termsOf stem table query, row.term ∈ d.stems stem) →
          ∃ score, bm25Score stem ln threshold table text query = .ok score ∧
            ((d.id, score) ∈ results ∨ results.length = limit ∧ ∀ e ∈ results, score ≤ e.2) := by
  obtain ⟨agg, hagg, rfl⟩ := map_eq_ok.mp hresults
  have hjoined := joined_perm joinContent agg
  simp only [hjoined.mem_iff, hjoined.length_eq]
  rcases @aggregated_cases K Term _ _ _ stem arrayToBloom threshold documents table ln
    query h order limit
    with ⟨len, hlen⟩ | ⟨hnil, hnone⟩
  · obtain ⟨hidf, hfalling, hselects⟩ := aggregated_selects h huncommon hlen hlimit hagg
    refine ⟨fun hnone => by rwa [hnone], ?_⟩
    rintro d hd text htext hquote ⟨row, hrow, hterm⟩
    refine ⟨_, searchSums_eq_bm25Score h h huncommon hquery hlen hidf hd htext hquote
      (List.ne_nil_of_mem hterm), ?_⟩
    have hkey : d.id ∈ (searchSums stem (tableParams ln table len) table query).entries.map
        Prod.fst :=
      (mem_keys_searchSums h).mpr ⟨d, hd, rfl, row, hrow, hterm⟩
    obtain ⟨e, he, hid⟩ := List.mem_map.mp hkey
    rw [← hid, SumMap.get_of_mem he]
    exact hselects.mem_or_full he
  · cases hnil.symm.trans hagg
    refine ⟨fun hnone => by rw [hnone]; exact .nil, ?_⟩
    rintro d hd text htext hquote ⟨row, hrow, -⟩
    rw [hnone] at hrow
    exact absurd hrow List.not_mem_nil

end Created

def threeDocuments : DocumentTable where
  documents := [⟨1, some ['a', 'b']⟩, ⟨2, some ['b']⟩, ⟨3, some ['c', 'b', 'b']⟩]
  nodup := by decide

def threeTable : TermTable Char := createBm25Table id (fun ids i => i ∈ ids) 8000 threeDocuments

def insertionOrder (α : Type) : HashOrder α := ⟨id, List.Perm.refl⟩

def reverseOrder (α : Type) : HashOrder α := ⟨List.reverse, List.reverse_perm⟩

theorem threeTable_isTable : IsTableOf id (fun ids i => i ∈ ids) 8000 threeDocuments threeTable :=
  ⟨List.Perm.refl _, rfl⟩

theorem threeTable_uncommon (query : Text) : Uncommon id 8000 threeTable query := by
  intro row hrow
  obtain ⟨term, -, rfl⟩ := threeTable_isTable.mem_rows.mp (List.mem_of_mem_filter hrow)
  exact (termGroup_length_le term).trans (by decide)

theorem three_found :
    (searchBm25 id (id : ℚ → ℚ)
      (insertionOrder _) (some (reverseOrder _)) threeTable ['b', 'a'] 2).map
    (List.map Prod.fst) = .ok [2, 1] := by
  decide +kernel

theorem three_documents_agree :
    ∃ results, searchBm25 id (id : ℚ → ℚ) (insertionOrder _) (some (reverseOrder _)) threeTable
      ['b', 'a'] 2 =
        .ok results ∧ results.map Prod.fst = [2, 1] ∧
      ∀ doc score, (doc, score) ∈ results → ∃ d ∈ threeDocuments.documents, d.id = doc ∧
        ∃ text, d.text = some text ∧
          (apostrophe ∉ text →
            bm25Score id (id : ℚ → ℚ) 8000 threeTable text ['b', 'a'] = .ok score) := by
  obtain ⟨results, hresults, hids⟩ := map_eq_ok.mp three_found
  have hagree :=
    (search_scores_agree (id : ℚ → ℚ) (insertionOrder _) (some (reverseOrder _)) threeTable_isTable
    threeTable_isTable (by decide) (threeTable_uncommon _) (by decide)).2 results hresults
  exact ⟨results, hresults, hids, hagree⟩

theorem three_documents_best :
    ∃ results, searchBm25 id (id : ℚ → ℚ) (insertionOrder _) (some (reverseOrder _)) threeTable
      ['b', 'a'] 2 =
        .ok results ∧
      ∃ score, bm25Score id (id : ℚ → ℚ) 8000 threeTable ['c', 'b', 'b'] ['b', 'a'] = .ok score ∧
        results.length = 2 ∧ ∀ e ∈ results, score ≤ e.2 := by
  obtain ⟨results, hresults, hids⟩ := map_eq_ok.mp three_found
  obtain ⟨score, hscore, hbest⟩ :=
    (search_keeps_best threeTable_isTable (by decide) (threeTable_uncommon _)
    (by decide) hresults).2 ⟨3, some ['c', 'b', 'b']⟩ (by decide) _ rfl (by decide) (by decide)
  refine ⟨results, hresults, score, hscore, hbest.resolve_left fun hmem => ?_⟩
  have hthree : (3 : ℤ) ∈ results.map Prod.fst := List.mem_map_of_mem hmem
  rw [hids] at hthree
  exact absurd hthree (by decide)

end Lantern.Bm25Scores
