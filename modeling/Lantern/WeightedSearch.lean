import Mathlib.Algebra.Order.Monoid.WithTop
import Lantern.OrderedLimit

set_option autoImplicit false

/-!
# Searching several vector columns at once

`weighted_vector_search` orders the rows of a table by a weighted sum of up to three
distances. The exact search computes the sum for every row. The other search asks each
column for its nearest rows, as many as `ef`, and orders only the rows in one of the
answers.
-/
namespace Lantern.WeightedSearch
open OrderedLimit

structure Args (Column Vec K : Type) where
  w1 : K
  col1 : Column
  vec1 : Option Vec
  w2 : Option K
  col2 : Option Column
  vec2 : Option Vec
  w3 : Option K
  col3 : Option Column
  vec3 : Option Vec
  ef : ℕ
  maxDist : Option K

structure Term (Column Vec K : Type) where
  weight : K
  column : Column
  vec : Option Vec

section Statements
variable {Row Id Column Vec K : Type} [Field K] [LinearOrder K]

/-- The second and the third distance are left out unless their weight is positive and their
    column and vector are given. -/
def optionalTerm (w : Option K) (col : Option Column) (vec : Option Vec) :
    Option (Term Column Vec K) :=
  match w, col, vec with
  | some w, some col, some vec => if 0 < w then some ⟨w, col, some vec⟩ else none
  | _, _, _ => none

def Args.firstTerm (args : Args Column Vec K) : Term Column Vec K := ⟨args.w1, args.col1, args.vec1⟩

def Args.otherTerms (args : Args Column Vec K) : List (Term Column Vec K) :=
  (optionalTerm args.w2 args.col2 args.vec2).toList ++
    (optionalTerm args.w3 args.col3 args.vec3).toList

def Args.terms (args : Args Column Vec K) : List (Term Column Vec K) :=
  args.firstTerm :: args.otherTerms

/-- The table that is searched: its rows, the column in which they are told apart, and the
    distance of the operator. -/
structure Table (Row Id Column Vec K : Type) where
  rows : List Row
  id : Row → Id
  distance : Column → Vec → Row → Option K

variable (table : Table Row Id Column Vec K) (args : Args Column Vec K)

def Term.distance (t : Term Column Vec K) (row : Row) : Option K :=
  t.vec.bind fun vec => table.distance t.column vec row

def Term.weighted (t : Term Column Vec K) (row : Row) : Option K :=
  (t.distance table row).map (t.weight * ·)

def joint (row : Row) : Option K :=
  args.otherTerms.foldl (fun sum t =>
    Option.map₂ (· + ·) sum (t.weighted table row)) (args.firstTerm.weighted table row)

def passes (row : Row) : Bool :=
  match args.maxDist with
  | none => true
  | some bound =>
    match joint table args row with
    | some distance => decide (distance < bound)
    | none => false

def nullsLast : Option K → WithTop K
  | some x => x
  | none => ⊤

def jointKey (row : Row) : WithTop K := nullsLast (joint table args row)

def candidates : List Row := table.rows.filter (passes table args)

def ExactSearch (result : List Row) : Prop :=
  Arranged (jointKey table args) (candidates table args) result

/-- The query of one column, answered by comparing all its distances. -/
def ColumnQuery (t : Term Column Vec K) (answer : List Row) : Prop :=
  Answers (fun row =>
    (.ok (nullsLast (t.distance table row)) : Except Empty (WithTop K)))
    (candidates table args) args.ef
    answer

/-- The query of one column, answered by an index, which may miss rows. -/
structure IndexQuery (answer : List Row) : Prop where
  rows : answer.Subperm (candidates table args)
  limit : answer.length ≤ args.ef

/-- `DISTINCT ON`: one row of each id, and it is not said which one. -/
structure DistinctOn (rows distinct : List Row) : Prop where
  subset : distinct ⊆ rows
  nodup : (distinct.map table.id).Nodup
  covers : ∀ row ∈ rows, ∃ kept ∈ distinct, table.id kept = table.id row

def MergedSearch (answers : List (List Row)) (result : List Row) : Prop :=
  ∃ distinct, DistinctOn table answers.flatten distinct ∧
    Arranged (jointKey table args) (distinct.filter (passes table args)) result

end Statements

section Merged
variable {Row Id Column Vec K : Type} [Field K] [LinearOrder K]
variable {table : Table Row Id Column Vec K} {args : Args Column Vec K} {answers : List (List Row)}
  {result : List Row}

theorem ColumnQuery.indexQuery {t : Term Column Vec K} {answer : List Row}
    (h : ColumnQuery table args t answer) :
    IndexQuery table args answer where
  rows := h.subperm
  limit := by
    rw [h.length_eq]
    exact min_le_left _ _

theorem indexQueries {terms : List (Term Column Vec K)}
    (h : List.Forall₂ (ColumnQuery table args) terms answers) :
    ∀ answer ∈ answers, IndexQuery table args answer := by
  induction h with
  | nil => exact fun answer hanswer => absurd hanswer List.not_mem_nil
  | cons hquery _ ih => exact List.forall_mem_cons.mpr ⟨hquery.indexQuery, ih⟩

theorem mem_candidates {row : Row} : row ∈ candidates table args ↔ row ∈ table.rows ∧
      passes table args row = true :=
  List.mem_filter

theorem flatten_subset (hindex : ∀ answer ∈ answers, IndexQuery table args answer) :
    answers.flatten ⊆ candidates table args := by
  intro row hrow
  obtain ⟨answer, hanswer, hin⟩ := List.mem_flatten.mp hrow
  exact (hindex answer hanswer).rows.subset hin

theorem length_flatten_le (hindex : ∀ answer ∈ answers, IndexQuery table args answer) :
    answers.flatten.length ≤ answers.length * args.ef := by
  rw [List.length_flatten]
  refine (List.sum_le_card_nsmul _ args.ef ?_).trans_eq ?_
  · intro n hn
    obtain ⟨answer, hanswer, rfl⟩ := List.mem_map.mp hn
    exact (hindex answer hanswer).limit
  · rw [List.length_map, smul_eq_mul]

theorem filter_distinct {distinct : List Row}
    (hindex : ∀ answer ∈ answers, IndexQuery table args answer)
    (hdistinct : DistinctOn table answers.flatten distinct) :
    distinct.filter (passes table args) = distinct := by
  rw [List.filter_eq_self]
  intro row hrow
  exact (mem_candidates.mp (flatten_subset hindex (hdistinct.subset hrow))).2

structure Found (table : Table Row Id Column Vec K) (args : Args Column Vec K)
    (answers : List (List Row)) (result : List Row) : Prop where
  subset : result ⊆ answers.flatten
  nodup : (result.map table.id).Nodup
  covers : ∀ row ∈ answers.flatten, ∃ kept ∈ result, table.id kept = table.id row
  arranged : Arranged (jointKey table args) result result

theorem MergedSearch.found (h : MergedSearch table args answers result)
    (hindex : ∀ answer ∈ answers, IndexQuery table args answer) :
    Found table args answers result := by
  obtain ⟨distinct, hdistinct, harranged⟩ := h
  rw [filter_distinct hindex hdistinct] at harranged
  have hperm := harranged.perm
  constructor
  · exact fun row hrow => hdistinct.subset (hperm.mem_iff.mp hrow)
  · exact (hperm.map table.id).nodup_iff.mpr hdistinct.nodup
  · intro row hrow
    obtain ⟨kept, hkept, hid⟩ := hdistinct.covers row hrow
    exact ⟨kept, hperm.mem_iff.mpr hkept, hid⟩
  · exact ⟨List.Perm.refl _, harranged.ordered⟩

theorem Found.subperm {exact : List Row} (h : Found table args answers result)
    (hindex : ∀ answer ∈ answers, IndexQuery table args answer)
    (hexact : ExactSearch table args exact) :
    result.Subperm exact := by
  refine (h.nodup.of_map _).subperm fun row hrow => ?_
  exact hexact.perm.mem_iff.mpr (flatten_subset hindex (h.subset hrow))

theorem Found.mem_iff {row : Row} (h : Found table args answers result)
    (hids : (table.rows.map table.id).Nodup)
    (hindex : ∀ answer ∈ answers, IndexQuery table args answer) :
    row ∈ result ↔ row ∈ answers.flatten := by
  refine ⟨fun hrow => h.subset hrow, fun hrow => ?_⟩
  obtain ⟨kept, hkept, hid⟩ := h.covers row hrow
  have htable : ∀ r ∈ answers.flatten, r ∈ table.rows := fun r hr =>
    (mem_candidates.mp (flatten_subset hindex hr)).1
  rwa [← List.inj_on_of_nodup_map hids (htable kept (h.subset hkept)) (htable row hrow) hid]

/-- Whatever the indexes answer, the merged search returns rows of the exact search, one of
    each id and at most `ef` for each column, in the order of their joint distances. The row
    at a place is never nearer than the row at this place in the exact search. -/
theorem merged_within_exact {exact : List Row} (hlength : answers.length = args.terms.length)
    (hindex : ∀ answer ∈ answers, IndexQuery table args answer)
    (h : MergedSearch table args answers result) (hexact : ExactSearch table args exact) :
    result.Subperm exact ∧
      (result.map table.id).Nodup ∧ result.length ≤ args.terms.length * args.ef ∧
      result.Pairwise (fun row next => jointKey table args row ≤ jointKey table args next) ∧
      ∀ (i : ℕ) (row nearest : Row), result[i]? = some row → exact[i]? = some nearest →
        jointKey table args nearest ≤ jointKey table args row := by
  have hfound := h.found hindex
  have hsubperm := hfound.subperm hindex hexact
  refine ⟨hsubperm, hfound.nodup, ?_, hfound.arranged.ordered,
    fun i row nearest hrow hnearest => ?_⟩
  · have hle := ((hfound.nodup.of_map _).subperm hfound.subset).length_le
    exact hle.trans (hlength ▸ length_flatten_le hindex)
  · exact hfound.arranged.getElem_le hexact hsubperm hrow hnearest

end Merged

section Reached
variable {Row Id Column Vec K : Type} [Field K]

theorem nullsLast_add (x y : Option K) :
    nullsLast (Option.map₂ (· + ·) x y) = nullsLast x + nullsLast y := by
  cases x with
  | none => exact (WithTop.top_add _).symm
  | some x =>
    cases y with
    | none => exact (WithTop.add_top _).symm
    | some y => exact WithTop.coe_add x y

theorem nullsLast_foldl {table : Table Row Id Column Vec K} (row : Row)
    (terms : List (Term Column Vec K)) (start : Option K) :
    nullsLast (terms.foldl (fun sum t => Option.map₂ (· + ·) sum (t.weighted table row)) start) =
      nullsLast start + (terms.map fun t => nullsLast (t.weighted table row)).sum := by
  induction terms generalizing start with
  | nil => rw [List.foldl_nil, List.map_nil, List.sum_nil, add_zero]
  | cons t terms ih =>
    rw [List.foldl_cons, ih, nullsLast_add, List.map_cons, List.sum_cons, add_assoc]

variable [LinearOrder K] (table : Table Row Id Column Vec K) (args : Args Column Vec K)

def reached (t : Term Column Vec K) (answer : List Row) : WithTop K :=
  if answer.length < args.ef then ⊤
  else
    match answer.getLast? with
    | none => ⊤
    | some row => nullsLast (t.weighted table row)

def threshold (answers : List (List Row)) : WithTop K :=
  ((args.terms.zip answers).map fun p => reached table args p.1 p.2).sum

variable {table args}

theorem jointKey_eq_sum (row : Row) :
    jointKey table args row = (args.terms.map fun t => nullsLast (t.weighted table row)).sum :=
  nullsLast_foldl row args.otherTerms _

theorem weight_pos_of_optionalTerm {w : Option K} {col : Option Column} {vec : Option Vec}
    {t : Term Column Vec K} (h : t ∈ (optionalTerm w col vec).toList) : 0 < t.weight := by
  rw [Option.mem_toList] at h
  unfold optionalTerm at h
  split at h
  · split_ifs at h with hw
    cases h
    exact hw
  · exact absurd h (Option.some_ne_none t).symm

theorem weight_nonneg (hw1 : 0 ≤ args.w1) {t : Term Column Vec K} (ht : t ∈ args.terms) :
    0 ≤ t.weight := by
  rcases List.mem_cons.mp ht with rfl | hother
  · exact hw1
  · rcases List.mem_append.mp hother with hsecond | hthird
    · exact (weight_pos_of_optionalTerm hsecond).le
    · exact (weight_pos_of_optionalTerm hthird).le

section Order
variable [IsStrictOrderedRing K] {t : Term Column Vec K} {answer : List Row}
  {answers : List (List Row)} {row : Row}

theorem reached_le (hef : 1 ≤ args.ef) (hw : 0 ≤ t.weight) (h : ColumnQuery table args t answer)
    (hrow : row ∈ candidates table args) (hout : row ∉ answer) :
    reached table args t answer ≤ nullsLast (t.weighted table row) := by
  have hfull : ¬ answer.length < args.ef := by
    intro hshort
    rw [h.length_eq, min_lt_iff] at hshort
    have hall := h.perm_of_length_le (hshort.resolve_left (lt_irrefl _)).le
    exact hout (hall.mem_iff.mpr hrow)
  obtain ⟨last, hlast⟩ : ∃ last, answer.getLast? = some last := by
    cases hcases : answer.getLast? with
    | none =>
      rw [List.getLast?_eq_none_iff.mp hcases] at hfull
      exact absurd hef hfull
    | some last => exact ⟨last, rfl⟩
  obtain ⟨a, b, ha, hb, hle⟩ := h.le_of_not_mem (List.mem_of_getLast? hlast) hrow hout
  cases ha
  cases hb
  rw [reached, if_neg hfull, hlast]
  dsimp only
  unfold Term.weighted
  cases hd : t.distance table row with
  | none => exact le_top
  | some d =>
    rw [hd] at hle
    cases hd' : t.distance table last with
    | none =>
      rw [hd'] at hle
      exact absurd (top_le_iff.mp hle) WithTop.coe_ne_top
    | some d' =>
      rw [hd'] at hle
      exact WithTop.coe_le_coe.mpr (mul_le_mul_of_nonneg_left (WithTop.coe_le_coe.mp hle) hw)

theorem threshold_le (hef : 1 ≤ args.ef) (hw1 : 0 ≤ args.w1)
    (h : List.Forall₂ (ColumnQuery table args) args.terms answers)
    (hrow : row ∈ candidates table args) (hout : row ∉ answers.flatten) :
    threshold table args answers ≤ jointKey table args row := by
  rw [jointKey_eq_sum, threshold]
  have hweights : ∀ t ∈ args.terms, 0 ≤ t.weight := fun t ht => weight_nonneg hw1 ht
  generalize args.terms = terms at h hweights ⊢
  induction h with
  | nil => exact le_refl _
  | cons hquery hrest ih =>
    obtain ⟨hweight, hweights⟩ := List.forall_mem_cons.mp hweights
    rw [List.flatten_cons, List.mem_append, not_or] at hout
    rw [List.zip_cons_cons, List.map_cons, List.map_cons, List.sum_cons, List.sum_cons]
    exact add_le_add (reached_le hef hweight hquery hrow hout.1) (ih hout.2 hweights)

/-- With columns that are searched by comparing all distances, the merged search and the
    exact search agree below the threshold: they have the same rows there, and the same
    joint distances in the same order. If no column has more rows to answer than `ef`, they
    return the same rows. -/
theorem merged_agrees_below {result exact : List Row} (hef : 1 ≤ args.ef) (hw1 : 0 ≤ args.w1)
    (hids : (table.rows.map table.id).Nodup)
    (h : List.Forall₂ (ColumnQuery table args) args.terms answers)
    (hmerged : MergedSearch table args answers result) (hexact : ExactSearch table args exact) :
    (∀ bound ≤ threshold table args answers,
      (result.filter fun row => jointKey table args row < bound).Perm
          (exact.filter fun row => jointKey table args row < bound) ∧
        (result.map (jointKey table args)).filter (· < bound) =
          (exact.map (jointKey table args)).filter (· < bound)) ∧
      ((candidates table args).length ≤ args.ef → result.Perm exact) := by
  have hindex := indexQueries h
  have hfound := hmerged.found hindex
  have hnodup : result.Nodup := hfound.nodup.of_map _
  have hexactNodup : exact.Nodup := by
    refine hexact.perm.nodup_iff.mpr ?_
    exact (hids.of_map _).filter _
  have hsubset : result ⊆ exact := (hfound.subperm hindex hexact).subset
  refine ⟨fun bound hbound => ?_, fun hfew => ?_⟩
  · have hsame : (result.filter fun row => jointKey table args row < bound).Perm
        (exact.filter fun row => jointKey table args row < bound) := by
      refine (List.perm_ext_iff_of_nodup (hnodup.filter _) (hexactNodup.filter _)).mpr fun row => ?_
      rw [List.mem_filter, List.mem_filter, and_congr_left_iff, decide_eq_true_eq]
      intro hbelow
      refine ⟨fun hrow => hsubset hrow, fun hrow => ?_⟩
      rw [hfound.mem_iff hids hindex]
      by_contra hout
      have hle := threshold_le hef hw1 h (hexact.perm.mem_iff.mp hrow) hout
      exact (hbelow.trans_le hbound).not_ge hle
    exact ⟨hsame, hfound.arranged.keys_below hexact hsame⟩
  · refine (List.perm_ext_iff_of_nodup hnodup hexactNodup).mpr fun row =>
      ⟨fun hrow => hsubset hrow, fun hrow => ?_⟩
    rw [hfound.mem_iff hids hindex]
    obtain ⟨answer, others, hquery, -, rfl⟩ := List.forall₂_cons_left_iff.mp h
    exact List.mem_flatten_of_mem List.mem_cons_self
      ((hquery.perm_of_length_le hfew).mem_iff.mpr (hexact.perm.mem_iff.mp hrow))

end Order

end Reached

def pairTable : Table ℕ ℕ Bool Unit ℚ where
  rows := [0, 1, 2, 3]
  id := id
  distance := fun column _ row => if column then [1, 3, 2, 9][row]? else [1, 2, 5, 9][row]?

def pairArgs : Args Bool Unit ℚ :=
  ⟨1, false, some (), some 1, some true, some (), none, none, none, 2, none⟩

theorem pairTable_columns :
    List.Forall₂ (ColumnQuery pairTable pairArgs) pairArgs.terms [[0, 1], [0, 2]] :=
  .cons ⟨[(1, 0), (2, 1), (5, 2), (9, 3)], by decide, by decide, by decide +kernel, rfl⟩
    (.cons ⟨[(1, 0), (2, 2), (3, 1), (9, 3)], by decide, by decide, by decide +kernel, rfl⟩ .nil)

theorem pairTable_merged : MergedSearch pairTable pairArgs [[0, 1], [0, 2]] [0, 1, 2] :=
  ⟨[0, 1, 2], ⟨by decide, by decide, by decide⟩, ⟨by decide, by decide +kernel⟩⟩

theorem pairTable_exact : ExactSearch pairTable pairArgs [0, 1, 2, 3] :=
  ⟨by decide, by decide +kernel⟩

theorem pairTable_within : [0, 1, 2].Subperm [0, 1, 2, 3] :=
  (merged_within_exact rfl (indexQueries pairTable_columns) pairTable_merged pairTable_exact).1

theorem pairTable_agrees : ([0, 1, 2].map (jointKey pairTable pairArgs)).filter (· < 4) = [2] ∧
    ([0, 1, 2, 3].map (jointKey pairTable pairArgs)).filter (· < 4) = [2] := by
  have hagree :=
    ((merged_agrees_below (by decide) (by decide) (by decide) pairTable_columns pairTable_merged
    pairTable_exact).1 4 (by decide +kernel)).2
  have hexact : ([0, 1, 2, 3].map (jointKey pairTable pairArgs)).filter (· < 4) = [2] := by
    decide +kernel
  exact ⟨hagree.trans hexact, hexact⟩

end Lantern.WeightedSearch
