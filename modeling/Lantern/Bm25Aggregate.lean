import Lantern.Bm25Scores

set_option autoImplicit false

/-!
# The aggregate over term rows

`bm25_agg` is fed rows of any table, one term each, in any order. It adds up what the
rows contribute to each document and returns the best documents. The sums do not depend
on the order of the rows, and neither do the scores that are returned, though documents
with one score may change places.
-/
namespace Lantern.Bm25Aggregate
open Fallible GroupedRows Bm25Table Bm25Scores

variable {K Term : Type} [Field K] [LinearOrder K]

/-- The aggregate with a limit. Without rows there is no limit either, and no document to return. -/
def bm25Agg (order : HashOrder (ℤ × K)) (p : Params K) (limit : ℕ) (rows : List (TermRow Term)) :
    Except Failure (List (ℤ × K)) :=
  (rows.foldlM (aggregateState p) ⟨SumMap.empty, []⟩).bind (finalizeBase order limit)

def documentsOf (rows : List (TermRow Term)) : Finset ℤ :=
  ((rows.flatMap TermRow.entries).map Prod.fst).toFinset

def contribution (p : Params K) (document : ℤ) (row : TermRow Term) : K :=
  ((row.entries.filter fun e => e.1 = document).map fun e => p.value e.2.2 e.2.1 row.termFreq).sum

def score (p : Params K) (rows : List (TermRow Term)) (document : ℤ) : K :=
  (rows.map (contribution p document)).sum

structure BestDocuments (p : Params K) (limit : ℕ) (rows : List (TermRow Term))
    (results : List (ℤ × K)) : Prop where
  length : results.length = min limit (documentsOf rows).card
  distinct : (results.map Prod.fst).Nodup
  falling : results.Pairwise fun a b => b.2 ≤ a.2
  scores : ∀ e ∈ results, e.1 ∈ documentsOf rows ∧ e.2 = score p rows e.1
  best : ∀ document ∈ documentsOf rows, document ∉ results.map Prod.fst →
    ∀ e ∈ results, score p rows document ≤ e.2

section Sums
variable {p : Params K} {rows : List (TermRow Term)}

def sums (p : Params K) (rows : List (TermRow Term)) : SumMap ℤ K :=
  SumMap.empty.addAll (rows.flatMap (contributions p))

theorem mem_keys_sums {document : ℤ} : document ∈ (sums p rows).entries.map Prod.fst ↔
      document ∈ documentsOf rows := by
  have hkeys :
      (rows.flatMap (contributions p)).map Prod.fst =
      (rows.flatMap TermRow.entries).map Prod.fst := by
    rw [List.map_flatMap, List.map_flatMap]
    refine congrArg (List.flatMap · rows) (funext fun row => ?_)
    exact List.map_map
  rw [sums, SumMap.mem_keys_addAll, hkeys, documentsOf, List.mem_toFinset]
  exact or_iff_right List.not_mem_nil

theorem length_sums : (sums p rows).entries.length = (documentsOf rows).card := by
  have hfinset : ((sums p rows).entries.map Prod.fst).toFinset = documentsOf rows :=
    Finset.ext fun document => List.mem_toFinset.trans mem_keys_sums
  rw [← hfinset, List.toFinset_card_of_nodup (sums p rows).nodup, List.length_map]

theorem get_sums (document : ℤ) : (sums p rows).get document = score p rows document := by
  have hempty : (SumMap.empty : SumMap ℤ K).get document = 0 := rfl
  rw [sums, SumMap.get_addAll, hempty, zero_add]
  induction rows with
  | nil => rfl
  | cons row rows ih =>
    have hrow : (((contributions p row).filter fun e => e.1 = document).map Prod.snd).sum =
        contribution p document row := by
      unfold contributions contribution
      rw [List.filter_map, List.map_map]
      rfl
    rw [List.flatMap_cons, List.filter_append, List.map_append, List.sum_append, ih, hrow]
    rfl

theorem sums_perm {rows' : List (TermRow Term)} (h : rows.Perm rows') :
    (sums p rows).entries.Perm (sums p rows').entries :=
  SumMap.addAll_perm _ (h.flatMap_right _)

theorem bm25Agg_eq_ok (hbloom : ∀ row ∈ rows, row.docIdsBloom = none)
    (order : HashOrder (ℤ × K)) (limit : ℕ) {results : List (ℤ × K)} :
    bm25Agg order p limit rows = .ok results ↔
      (∀ row ∈ rows, Accepted p row) ∧
        finalizeBase order limit ⟨sums p rows, []⟩ = .ok results := by
  have hfold : ∀ s, rows.foldlM (aggregateState p) ⟨SumMap.empty, []⟩ = .ok s ↔
      (∀ row ∈ rows, Accepted p row) ∧ s = ⟨sums p rows, []⟩ := by
    intro s
    rw [foldlM_eq_ok fun row hrow => aggregateState_ok_iff (hbloom row hrow), foldl_contributions]
    rfl
  unfold bm25Agg
  rw [bind_eq_ok]
  simp only [hfold]
  constructor
  · rintro ⟨_, ⟨haccepted, rfl⟩, hfinal⟩
    exact ⟨haccepted, hfinal⟩
  · rintro ⟨haccepted, hfinal⟩
    exact ⟨_, ⟨haccepted, rfl⟩, hfinal⟩

theorem bestDocuments_of_selects {limit : ℕ} {results : List (ℤ × K)}
    (hfalling : results.Pairwise fun a b => b.2 ≤ a.2)
    (h : Selects limit (sums p rows).entries results) :
    BestDocuments p limit rows results where
  length := by rw [h.length, length_sums]
  distinct := by
    obtain ⟨dropped, hperm, -⟩ := h.rest
    have hnodup := ((hperm.map Prod.fst).nodup_iff).mp (sums p rows).nodup
    rw [List.map_append] at hnodup
    exact (List.nodup_append.mp hnodup).1
  falling := hfalling
  scores := by
    intro e he
    obtain ⟨hkey, hget⟩ := SumMap.mem_entries.mp (h.subset he)
    exact ⟨mem_keys_sums.mp hkey, hget.trans (get_sums e.1)⟩
  best := by
    intro document hdocument hout e he
    have hentry : (document, score p rows document) ∈ (sums p rows).entries :=
      SumMap.mem_entries.mpr ⟨mem_keys_sums.mpr hdocument, (get_sums document).symm⟩
    rcases h.mem_or_full hentry with hin | ⟨-, hle⟩
    · exact absurd (List.mem_map_of_mem hin) hout
    · exact hle e he

/-- The aggregate returns exactly if every row is accepted. It returns the best documents,
    and for the rows in another order it returns as well, with the same scores. -/
theorem bm25Agg_best (order : HashOrder (ℤ × K)) (p : Params K) {limit : ℕ} (hlimit : 1 ≤ limit)
    (rows : List (TermRow Term)) (hbloom : ∀ row ∈ rows, row.docIdsBloom = none) :
    ((∃ results, bm25Agg order p limit rows = .ok results) ↔ ∀ row ∈ rows, Accepted p row) ∧
      ∀ results, bm25Agg order p limit rows = .ok results → BestDocuments p limit rows results ∧
        ∀ order' rows', rows'.Perm rows → ∃ results', bm25Agg order' p limit rows' = .ok results' ∧
          results'.map Prod.snd = results.map Prod.snd := by
  obtain ⟨found, hfound, hfalling, hselects⟩ := finalizeBase_selects order hlimit (sums p rows)
  constructor
  · constructor
    · rintro ⟨results, hresults⟩
      exact ((bm25Agg_eq_ok hbloom order limit).mp hresults).1
    · exact fun haccepted => ⟨found, (bm25Agg_eq_ok hbloom order limit).mpr ⟨haccepted, hfound⟩⟩
  · intro results hresults
    obtain ⟨haccepted, hfinal⟩ := (bm25Agg_eq_ok hbloom order limit).mp hresults
    cases hfound.symm.trans hfinal
    refine ⟨bestDocuments_of_selects hfalling hselects, fun order' rows' hperm => ?_⟩
    obtain ⟨found', hfound', hfalling', hselects'⟩ :=
      finalizeBase_selects order' hlimit (sums p rows')
    refine ⟨found',
      (bm25Agg_eq_ok (fun row hrow => hbloom row (hperm.mem_iff.mp hrow)) order' limit).mpr
      ⟨fun row hrow => haccepted row (hperm.mem_iff.mp hrow), hfound'⟩, ?_⟩
    exact (hselects'.of_perm (sums_perm hperm)).scores_eq hselects hfalling' hfalling

end Sums

section Rows
variable [IsStrictOrderedRing K] {p : Params K}

theorem accepted_of_le (hp : p.Valid) (hcorpus : p.corpusSize ≠ 0) (hln : ∀ x, 1 ≤ x → 0 ≤ p.ln x)
    {row : TermRow Term} (hfreq : row.termFreq ≤ p.corpusSize)
    (hlens : ∀ e ∈ row.entries, 0 < e.2.2) : Accepted p row := by
  refine ⟨hcorpus, hp.avg_nonneg, fun e he =>
    ⟨_, (calculateBm25_eq_ok hp ?_ (Nat.cast_nonneg _)).mpr ⟨?_, rfl⟩⟩⟩
  · exact_mod_cast hlens e he
  · exact idf_nonneg_of_le hln hfreq

end Rows

def twoRows : List (TermRow Char) :=
  [⟨'a', 2, 2, none, [1, 2], [1, 1], [3, 2]⟩, ⟨'b', 1, 1, none, [2], [1], [2]⟩]

def twoParams : Params ℚ := ⟨id, 2, 5 / 2, BM25_DEFAULT_K1, BM25_DEFAULT_B⟩

theorem twoRows_best : ∃ results, bm25Agg (insertionOrder _) twoParams 1 twoRows = .ok results ∧
      results.length = 1 := by
  have hvalid : twoParams.Valid := by
    constructor <;> norm_num [twoParams, BM25_DEFAULT_K1, BM25_DEFAULT_B]
  have haccepted : ∀ row ∈ twoRows, Accepted twoParams row := by
    intro row hrow
    refine accepted_of_le hvalid (by decide) (fun x hx => zero_le_one.trans hx) ?_ ?_
    · revert row
      decide
    · revert row
      decide
  obtain ⟨hreturns, hbest⟩ :=
    bm25Agg_best (insertionOrder _) twoParams (le_refl 1) twoRows (by decide)
  obtain ⟨results, hresults⟩ := hreturns.mpr haccepted
  refine ⟨results, hresults, ?_⟩
  rw [(hbest results hresults).1.length]
  decide

end Lantern.Bm25Aggregate
