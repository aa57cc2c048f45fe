import Lantern.QuantizationTasks
import Lantern.ResultLists

set_option autoImplicit false

/-!
# Codes of old and of new rows

The rows that a table has when it is quantised get their codes from `quantize_vectors`,
which looks into the codebook as it was read into memory. A row that is inserted or
changed later gets its code from a trigger, and the trigger asks the codebook table
itself, through `_lantern_internal.quantize_vector`.
-/
namespace Lantern.TriggerCodes
open Fallible ProductQuantization QuantizationTasks

inductive SqlError where
  | raised (message : String)
  | nullElement
  deriving DecidableEq, Repr

section Database
variable {L : Type} [LinearOrder L]

/-- The order of reals in the database, where not a number comes last. -/
def sqlLe : F32 L → F32 L → Prop
  | _, none => True
  | none, some _ => False
  | some a, some b => a ≤ b

instance : DecidableRel (sqlLe (L := L))
  | none, none => .isTrue trivial
  | some _, none => .isTrue trivial
  | none, some _ => .isFalse id
  | some a, some b => inferInstanceAs (Decidable (a ≤ b))

theorem sqlLe_total (a b : F32 L) : sqlLe a b ∨ sqlLe b a := by
  cases a with
  | none => exact Or.inr trivial
  | some a =>
    cases b with
    | none => exact Or.inl trivial
    | some b => exact le_total a b

theorem sqlLe_trans {a b c : F32 L} (hab : sqlLe a b) (hbc : sqlLe b c) : sqlLe a c := by
  cases c with
  | none => trivial
  | some c =>
    cases b with
    | none => exact hbc.elim
    | some b =>
      cases a with
      | none => exact hab.elim
      | some a => exact le_trans hab hbc

theorem head_insertionSort {ds : List (F32 L × ℕ)} (hne : ds ≠ []) :
    ∃ d ∈ ds, (ds.insertionSort fun a b => sqlLe a.1 b.1).head? = some d ∧
      ∀ e ∈ ds, sqlLe d.1 e.1 := by
  let r : F32 L × ℕ → F32 L × ℕ → Prop := fun a b => sqlLe a.1 b.1
  have : Std.Total r := ⟨fun a b => sqlLe_total a.1 b.1⟩
  have : IsTrans (F32 L × ℕ) r := ⟨fun _ _ _ => sqlLe_trans⟩
  have hsorted := List.pairwise_insertionSort r ds
  have hmem : ∀ e, e ∈ ds.insertionSort r ↔ e ∈ ds := fun e => List.mem_insertionSort r
  change ∃ d ∈ ds, (ds.insertionSort r).head? = some d ∧ ∀ e ∈ ds, sqlLe d.1 e.1
  cases hsort : ds.insertionSort r with
  | nil =>
    exact absurd
      (List.length_eq_zero_iff.mp
      ((List.length_insertionSort r ds).symm.trans (by rw [hsort]; rfl))) hne
  | cons d rest =>
    rw [hsort] at hsorted hmem
    refine ⟨d, (hmem d).mp List.mem_cons_self, rfl, fun e he => ?_⟩
    rcases List.mem_cons.mp ((hmem e).mpr he) with rfl | hrest
    · exact (sqlLe_total e.1 e.1).elim id id
    · exact List.rel_of_pairwise_cons hsorted hrest

def arrayDist (ar : Arithmetic L) (a b : List (F32 L)) : Except SqlError (F32 L) :=
  if a.length ≠ b.length then
    .error (.raised
      s!"expected equally sized arrays but got arrays with dimensions {a.length} and {b.length}")
  else .ok (l2sqDist ar a b)

def selectCenter (ar : Arithmetic L) (table : List (CodebookRow L)) (subvectorId : ℕ)
    (v : List (F32 L)) :
    Except SqlError (Option ℕ) :=
  ((table.filter fun row => row.subvectorId == subvectorId).mapM fun row =>
      (arrayDist ar row.centroid v).map fun d => (d, row.centroidId)).map fun ds =>
    (ds.insertionSort fun a b => sqlLe a.1 b.1).head?.map Prod.snd

/-- The values of `FOR i IN lower..upper BY step`, of which there are not more than
    the fuel. -/
def loopValues (upper step : ℕ) : ℕ → ℕ → List ℕ
  | 0, _ => []
  | fuel + 1, i => if i ≤ upper then i :: loopValues upper step fuel (i + step) else []

structure LoopState where
  subvectorId : ℕ
  res : List (Option ℕ)

def quantizeBody (ar : Arithmetic L) (table : List (CodebookRow L)) (v : List (F32 L))
    (subvectorLen : ℕ) (s : LoopState) (i : ℕ) : Except SqlError LoopState :=
  let endIdx := if i = v.length then v.length else i + subvectorLen - 1
  (selectCenter ar table s.subvectorId ((v.take endIdx).drop (i - 1))).map fun subvectorCenter =>
    ⟨s.subvectorId + 1, s.res ++ [subvectorCenter]⟩

def pqvecElement : Option ℕ → Except SqlError UInt8
  | none => .error .nullElement
  | some center =>
    if 255 < center then .error (.raised "Compressed vector element can not be bigger than 255")
    else .ok (UInt8.ofNat center)

/-- The cast `res::pqvec`. A null has no value in the array, and the cast does not
    look for it. -/
def arrayToPqvec (res : List (Option ℕ)) : Except SqlError (List UInt8) := res.mapM pqvecElement

def internalQuantizeVector (ar : Arithmetic L) (v : List (F32 L)) (subvectorCount : ℕ)
    (table : List (CodebookRow L)) : Except SqlError (List UInt8) :=
  if v = [] then .error (.raised "upper bound of FOR loop cannot be null")
  else if subvectorCount = 0 then .error (.raised "division by zero")
  else if v.length / subvectorCount = 0 then
    .error (.raised "BY value of FOR loop must be greater than zero")
  else
    ((loopValues v.length (v.length / subvectorCount) v.length 1).foldlM
      (quantizeBody ar table v (v.length / subvectorCount)) ⟨0, []⟩).bind fun s =>
      arrayToPqvec s.res

end Database

def writtenCode {L : Type} [LinearOrder L] (ar : Arithmetic L) (v : List (F32 L)) (splits : ℕ)
    (codebookRows : List (CodebookRow L)) : Except Failure (List UInt8) :=
  (readCodebook codebookRows splits).bind fun p =>
    (quantizeVector ar v.length p.2 splits p.1 ⟨0, v⟩).map Prod.snd

/-- For each subvector some centroids, numbered from 0; k-means leaves the same number for
    each. -/
structure Codebook (K : Type) where
  splits : ℕ
  clusters : ℕ → ℕ
  subvectorDim : ℕ
  centroid : ℕ → ℕ → List K
  splits_pos : 0 < splits
  clusters_pos : ∀ i < splits, 0 < clusters i
  dim_pos : 0 < subvectorDim
  length_centroid : ∀ i < splits, ∀ k < clusters i, (centroid i k).length = subvectorDim

namespace Codebook
variable {K : Type} (book : Codebook K)

def row (i k : ℕ) : CodebookRow K := ⟨i, k, (book.centroid i k).map some⟩

def rows : List (CodebookRow K) :=
  (List.range book.splits).flatMap fun i => (List.range (book.clusters i)).map (book.row i)

def vectorDim : ℕ := book.splits * book.subvectorDim

end Codebook

section Reading
variable {K : Type}

theorem mem_rows_iff {book : Codebook K} {row : CodebookRow K} :
    row ∈ book.rows ↔ ∃ i < book.splits, ∃ k < book.clusters i, book.row i k = row := by
  simp only [Codebook.rows, List.mem_flatMap, List.mem_map, List.mem_range]

def rowsOf (rows : List (CodebookRow K)) (i : ℕ) : List (CodebookRow K) :=
  rows.filter fun row => row.subvectorId == i

theorem flatMap_range_single {α : Type} (f : ℕ → List α) (i n : ℕ) :
    ((List.range n).flatMap fun j => if j = i then f j else []) = if i < n then f i else [] := by
  induction n with
  | zero => rfl
  | succ n ih =>
    rw [List.range_succ, List.flatMap_append, ih, List.flatMap_singleton]
    rcases Nat.lt_trichotomy i n with h | rfl | h
    · rw [if_pos h, if_neg (by omega), if_pos (by omega), List.append_nil]
    · rw [if_neg (lt_irrefl i), if_pos rfl, if_pos (Nat.lt_succ_self i), List.nil_append]
    · rw [if_neg (by omega), if_neg (by omega), if_neg (by omega), List.nil_append]

theorem rowsOf_flatMap {row : ℕ → ℕ → CodebookRow K}
    (hrow : ∀ i k, (row i k).subvectorId = i) (splits : ℕ) (clusters : ℕ → ℕ) (i : ℕ) :
    rowsOf ((List.range splits).flatMap fun i => (List.range (clusters i)).map (row i)) i =
      if i < splits then (List.range (clusters i)).map (row i) else [] := by
  unfold rowsOf
  rw [List.filter_flatMap, ← flatMap_range_single fun j => (List.range (clusters j)).map (row j)]
  apply List.flatMap_congr
  intro j _
  rw [List.filter_map]
  split_ifs with h
  · subst h
    have hall : List.filter ((fun row => row.subvectorId == j) ∘ row j) (List.range (clusters j)) =
        List.range (clusters j) := List.filter_eq_self.mpr fun k _ => by simpa using hrow j k
    rw [hall]
  · have hnone :
        List.filter ((fun row => row.subvectorId == i) ∘ row j) (List.range (clusters j)) = [] :=
      List.filter_eq_nil_iff.mpr fun k _ => by simpa [hrow] using h
    rw [hnone, List.map_nil]

theorem rowsOf_rows (book : Codebook K) (i : ℕ) :
    rowsOf book.rows i = if i < book.splits then (List.range (book.clusters i)).map
      (book.row i) else [] :=
  rowsOf_flatMap (fun _ _ => rfl) book.splits book.clusters i

def Numbered (rows : List (CodebookRow K)) : Prop :=
  ∀ i, (rowsOf rows i).map CodebookRow.centroidId = List.range (rowsOf rows i).length

theorem rowsOf_concat (rows : List (CodebookRow K)) (row : CodebookRow K) (i : ℕ) :
    rowsOf (rows ++ [row]) i = rowsOf rows i ++ if row.subvectorId = i then [row] else [] := by
  unfold rowsOf
  rw [List.filter_append, List.filter_singleton]
  simp

theorem Numbered.of_concat {rows : List (CodebookRow K)} {row : CodebookRow K}
    (h : Numbered (rows ++ [row])) :
    Numbered rows ∧ row.centroidId = (rowsOf rows row.subvectorId).length := by
  have hsplit :
      ∀ i, (rowsOf rows i).map CodebookRow.centroidId = List.range (rowsOf rows i).length ∧
      (row.subvectorId = i → row.centroidId = (rowsOf rows i).length) := by
    intro i
    have hi := h i
    rw [rowsOf_concat] at hi
    by_cases hrow : row.subvectorId = i
    · rw [if_pos hrow, List.map_append, List.length_append, List.length_singleton,
        List.range_succ] at hi
      obtain ⟨hleft, hright⟩ := List.append_inj hi (by simp)
      exact ⟨hleft, fun _ => List.singleton_inj.mp hright⟩
    · rw [if_neg hrow, List.append_nil] at hi
      exact ⟨hi, fun h => absurd h hrow⟩
  exact ⟨fun i => (hsplit i).1, (hsplit _).2 rfl⟩

theorem lookup_replace {β : Type} (books : List (ℕ × β)) (i j : ℕ) (b : β) :
    ((i, b) :: books.filter fun e => e.1 != i).lookup j = if j = i then some b
    else books.lookup j := by
  by_cases h : j = i
  · rw [if_pos h, h, List.lookup_cons_self]
  · rw [if_neg h, List.lookup_cons, beq_eq_false_iff_ne.mpr h]
    change (books.filter fun e => e.1 != i).lookup j = books.lookup j
    induction books with
    | nil => rfl
    | cons e books ih =>
      obtain ⟨k, c⟩ := e
      by_cases hk : k = i
      · subst hk
        rw [List.filter_cons_of_neg (by simp), List.lookup_cons, beq_eq_false_iff_ne.mpr h]
        exact ih
      · rw [List.filter_cons_of_pos (by simpa using hk), List.lookup_cons, List.lookup_cons, ih]

structure Holds (rows : List (CodebookRow K)) (books : Codebooks K) : Prop where
  nodup : (books.map Prod.fst).Nodup
  keys : ∀ i, i ∈ books.map Prod.fst ↔ rowsOf rows i ≠ []
  lookup : ∀ i, (books.lookup i).getD [] = (rowsOf rows i).map CodebookRow.centroid

theorem addCentroid_holds {rows : List (CodebookRow K)} {row : CodebookRow K} {books : Codebooks K}
    (h : Holds rows books) (hnext : row.centroidId = (rowsOf rows row.subvectorId).length) :
    ∃ books', addCentroid books row = .ok books' ∧ Holds (rows ++ [row]) books' := by
  have hlookup := h.lookup row.subvectorId
  have hlength : ((books.lookup row.subvectorId).getD []).length = row.centroidId := by
    rw [hlookup, List.length_map, hnext]
  refine ⟨_, if_neg hlength.not_lt, ?_, fun i => ?_, fun i => ?_⟩
  · rw [List.map_cons, List.nodup_cons]
    refine ⟨by simp, ?_⟩
    exact h.nodup.sublist (List.filter_sublist.map _)
  · rw [rowsOf_concat]
    by_cases hi : row.subvectorId = i
    · simp [hi]
    · rw [if_neg hi, List.append_nil, ← h.keys i]
      simp only [List.map_cons, List.mem_cons, List.mem_map, List.mem_filter, bne_iff_ne]
      constructor
      · rintro (heq | ⟨e, ⟨he, -⟩, rfl⟩)
        · exact absurd heq.symm hi
        · exact ⟨e, he, rfl⟩
      · rintro ⟨e, he, rfl⟩
        exact Or.inr ⟨e, ⟨he, fun heq => hi heq.symm⟩, rfl⟩
  · rw [lookup_replace, rowsOf_concat]
    by_cases hi : row.subvectorId = i
    · subst hi
      rw [if_pos rfl, if_pos rfl, Option.getD_some, List.map_append, ← hlookup, ← hlength]
      exact List.insertIdx_length_self
    · rw [if_neg (Ne.symm hi), if_neg hi, List.append_nil]
      exact h.lookup i

theorem foldlM_addCentroid {rows : List (CodebookRow K)} (h : Numbered rows) :
    ∃ books, rows.foldlM addCentroid [] = .ok books ∧ Holds rows books := by
  induction rows using List.reverseRecOn with
  | nil => exact ⟨[], rfl, List.nodup_nil, fun i => by simp [rowsOf], fun i => rfl⟩
  | append_singleton rows row ih =>
    obtain ⟨hrows, hnext⟩ := h.of_concat
    obtain ⟨books, hbooks, hholds⟩ := ih hrows
    obtain ⟨books', hadd, hholds'⟩ := addCentroid_holds hholds hnext
    refine ⟨books', ?_, hholds'⟩
    rw [List.foldlM_append, hbooks]
    simp only [bind, Except.bind, List.foldlM_cons, List.foldlM_nil, hadd, pure, Except.pure]

theorem length_of_keys {books : Codebooks K} {n : ℕ} (hnodup : (books.map Prod.fst).Nodup)
    (hkeys : ∀ i, i ∈ books.map Prod.fst ↔ i < n) : books.length = n := by
  have hperm : (books.map Prod.fst).Perm (List.range n) :=
    (List.perm_ext_iff_of_nodup hnodup List.nodup_range).mpr fun i =>
      (hkeys i).trans List.mem_range.symm
  simpa using hperm.length_eq

/-- The rows of the table as the query returns them, `ORDER BY centroid_id ASC`. -/
structure Ordered (book : Codebook K) (rows : List (CodebookRow K)) : Prop where
  stored : rows.Perm book.rows
  sorted : rows.Pairwise fun a b => a.centroidId ≤ b.centroidId

theorem Ordered.rowsOf_eq {book : Codebook K} {rows : List (CodebookRow K)}
    (h : Ordered book rows) (i : ℕ) :
    rowsOf rows i = if i < book.splits then (List.range (book.clusters i)).map
      (book.row i) else [] := by
  have hperm : (rowsOf rows i).Perm (rowsOf book.rows i) := h.stored.filter _
  rw [rowsOf_rows] at hperm
  split_ifs at hperm ⊢ with hi
  · -- the numbers are those of the clusters, in order, and a row is known by its number
    have hids : (rowsOf rows i).map CodebookRow.centroidId = List.range (book.clusters i) := by
      have hp := hperm.map CodebookRow.centroidId
      rw [List.map_map] at hp
      have hid : (CodebookRow.centroidId ∘ book.row i) = id := rfl
      rw [hid, List.map_id] at hp
      apply hp.eq_of_pairwise (fun a b _ _ => le_antisymm)
      · exact List.pairwise_map.mpr (h.sorted.filter _)
      · exact List.pairwise_lt_range.imp Nat.le_of_lt
    have hrow : ∀ row ∈ rowsOf rows i, book.row i row.centroidId = row := by
      intro row hmem
      obtain ⟨k, -, rfl⟩ := List.mem_map.mp (hperm.mem_iff.mp hmem)
      rfl
    rw [← hids, List.map_map]
    exact ((List.map_congr_left hrow).trans (List.map_id _)).symm
  · exact hperm.eq_nil

theorem readCodebook_ordered {book : Codebook K} {rows : List (CodebookRow K)}
    (h : Ordered book rows) :
    ∃ books, readCodebook rows book.splits = .ok (books, book.subvectorDim) ∧ ∀ i < book.splits,
      books.lookup i =
        some ((List.range (book.clusters i)).map fun k => (book.centroid i k).map some) := by
  have hnumbered : Numbered rows := by
    intro i
    rw [h.rowsOf_eq]
    split_ifs
    · rw [List.map_map, List.length_map, List.length_range]
      exact List.map_id _
    · rfl
  have hne : ∀ i, rowsOf rows i ≠ [] ↔ i < book.splits := by
    intro i
    rw [h.rowsOf_eq]
    split_ifs with hi
    · simp [hi, (book.clusters_pos i hi).ne']
    · simp [hi]
  obtain ⟨books, hbooks, hholds⟩ := foldlM_addCentroid hnumbered
  have hlength : books.length = book.splits :=
    length_of_keys hholds.nodup fun i => (hholds.keys i).trans (hne i)
  refine ⟨books, ?_, fun i hi => ?_⟩
  · match rows, h, hbooks with
    | [], h, _ =>
      exact absurd rfl ((hne 0).mpr book.splits_pos)
    | first :: rest, h, hbooks =>
      have hfirst : first.centroid.length = book.subvectorDim := by
        have hmem : first ∈ book.rows := h.stored.mem_iff.mp List.mem_cons_self
        obtain ⟨i, hi, k, hk, rfl⟩ := mem_rows_iff.mp hmem
        rw [Codebook.row, List.length_map]
        exact book.length_centroid i hi k hk
      refine bind_eq_ok.mpr ⟨_, checkedDiv_eq_ok.mpr ⟨book.splits_pos, rfl⟩, ?_⟩
      refine bind_eq_ok.mpr ⟨books, hbooks, ?_⟩
      rw [if_neg (not_not.mpr hlength), hfirst]
  · have hget := hholds.lookup i
    rw [h.rowsOf_eq, if_pos hi, List.map_map] at hget
    cases hlook : books.lookup i with
    | none =>
      rw [hlook] at hget
      have hnil := List.map_eq_nil_iff.mp hget.symm
      exact absurd (List.range_eq_nil.mp hnil) (book.clusters_pos i hi).ne'
    | some cs =>
      rw [hlook] at hget
      exact congrArg some hget

end Reading

section Exact
variable {K : Type}

def part (book : Codebook K) (v : List K) (i : ℕ) : List K :=
  (v.drop (i * book.subvectorDim)).take book.subvectorDim

theorem subvectorOf_map_some (book : Codebook K) (v : List K) (i : ℕ) :
    subvectorOf book.subvectorDim (v.map some) i = (part book v i).map some := by
  unfold subvectorOf part
  rw [← List.map_drop, ← List.map_take]

theorem length_part {book : Codebook K} {v : List K} (hv : v.length = book.vectorDim) {i : ℕ}
    (hi : i < book.splits) :
    (part book v i).length = book.subvectorDim := by
  have hend := split_end_le (hv.trans rfl).ge hi
  rw [part, List.length_take, List.length_drop]
  omega

variable [CommRing K]

/-- Numbers without rounding; `MAX` is `f32::MAX`. -/
def exact (MAX : K) : Arithmetic K where
  sub a b := a.bind fun x => b.map fun y => x - y
  mul a b := a.bind fun x => b.map fun y => x * y
  add a b := a.bind fun x => b.map fun y => x + y
  zero := some 0
  MAX := MAX

def squaredDistance (a b : List K) : K := ((a.zip b).map fun p => (p.1 - p.2) * (p.1 - p.2)).sum

theorem l2sqDist_exact (MAX : K) (a b : List K) :
    l2sqDist (exact MAX) (a.map some) (b.map some) = some (squaredDistance a b) := by
  have hfold : ∀ (ds : List K) (start : K),
      (ds.map some).foldl (exact MAX).add (some start) = some (start + ds.sum) := by
    intro ds
    induction ds with
    | nil =>
      intro start
      rw [List.sum_nil, add_zero]
      rfl
    | cons d ds ih =>
      intro start
      rw [List.sum_cons, ← add_assoc]
      exact ih (start + d)
  have hterms : (((a.map some).zip (b.map some)).map fun p =>
      (exact MAX).mul ((exact MAX).sub p.1 p.2) ((exact MAX).sub p.1 p.2)) =
      ((a.zip b).map fun p => (p.1 - p.2) * (p.1 - p.2)).map some := by
    rw [List.zip_map, List.map_map, List.map_map]
    rfl
  unfold l2sqDist
  rw [hterms]
  exact (hfold _ 0).trans (by rw [zero_add]; rfl)

def distance (book : Codebook K) (v : List K) (i k : ℕ) : K :=
  squaredDistance (book.centroid i k) (part book v i)

theorem distances_exact (book : Codebook K) (v : List K) (MAX : K) (i : ℕ) :
    distances (exact MAX) ((List.range (book.clusters i)).map fun k => (book.centroid i k).map some)
        ((part book v i).map some) =
      (List.range (book.clusters i)).map fun k => some (distance book v i k) := by
  unfold distances
  rw [List.map_map]
  apply List.map_congr_left
  intro k _
  exact l2sqDist_exact MAX _ _

variable [LinearOrder K] (book : Codebook K) (v : List K)

def IsNearest (i k : ℕ) : Prop :=
  k < book.clusters i ∧ ∀ j < book.clusters i, distance book v i k ≤ distance book v i j

/-- The number is a byte, and the distance below the one that the scan starts with. -/
def Representable (MAX : K) (i k : ℕ) : Prop := k < 256 ∧ (distance book v i k < MAX ∨ k = 0)

variable {book v}

def OnlyNearest (book : Codebook K) (v : List K) (i k : ℕ) : Prop :=
  IsNearest book v i k ∧ ∀ j, IsNearest book v i j → j = k

theorem closest_exact {MAX : K} {i k : ℕ} (hk : OnlyNearest book v i k) :
    (closest MAX ((List.range (book.clusters i)).map fun j => some (distance book v i j))).2 =
      if distance book v i k < MAX then k else 0 := by
  obtain ⟨⟨hlt, hleast⟩, honly⟩ := hk
  have hmem : ∀ j < book.clusters i, some (distance book v i j) ∈
      (List.range (book.clusters i)).map fun j => some (distance book v i j) :=
    fun j hj => List.mem_map_of_mem (List.mem_range.mpr hj)
  generalize hbest : closest MAX _ = best
  have hfound := hbest ▸ closest_found MAX _
  cases hfound with
  | nothing hall => rw [if_neg (hall _ (hmem k hlt)).not_gt]
  | @first x j hx hget hall _ =>
    obtain ⟨hj, hxj⟩ := List.getElem?_eq_some_iff.mp hget
    rw [List.length_map, List.length_range] at hj
    rw [List.getElem_map, List.getElem_range, Option.some.injEq] at hxj
    subst hxj
    have hnear : IsNearest book v i j := ⟨hj, fun m hm => hall _ (hmem m hm)⟩
    have heq := honly j hnear
    subst heq
    rw [if_pos hx]

theorem writtenCode_exact {MAX : K} {rows : List (CodebookRow K)} (hrows : Ordered book rows)
    (hv : v.length = book.vectorDim) {near : ℕ → ℕ}
    (hnear : ∀ i < book.splits, OnlyNearest book v i (near i)) :
    writtenCode (exact MAX) (v.map some) book.splits rows =
      .ok ((List.range book.splits).map fun i =>
        UInt8.ofNat (if distance book v i (near i) < MAX then near i else 0)) := by
  obtain ⟨books, hread, hlookup⟩ := readCodebook_ordered hrows
  have hlength : (v.map some).length = book.splits * book.subvectorDim := by
    rw [List.length_map, hv, Codebook.vectorDim]
  unfold writtenCode
  rw [hread]
  refine map_eq_ok.mpr ⟨(0, _), quantizeVector_eq_ok.mpr ⟨?_, rfl⟩, rfl⟩
  apply mapM_map_ok.mpr
  intro i hi
  have hlt := List.mem_range.mp hi
  have hend := split_end_le hlength.ge hlt
  refine (quantizeSplit_eq_ok hend).mpr ⟨_, hlookup i hlt, hend, ?_⟩
  rw [subvectorOf_map_some, getClosestCentroid_eq, distances_exact]
  exact congrArg UInt8.ofNat (closest_exact (hnear i hlt))

theorem selectCenter_nearest (MAX : K) {table : List (CodebookRow K)} {i n : ℕ}
    {centroid : ℕ → List K}
    (hrows : (rowsOf table i).Perm ((List.range n).map fun k => ⟨i, k, (centroid k).map some⟩))
    (hn : 0 < n) {p : List K} (hsizes : ∀ k < n, (centroid k).length = p.length) :
    ∃ k < n, selectCenter (exact MAX) table i (p.map some) = .ok (some k) ∧
      ∀ j < n, squaredDistance (centroid k) p ≤ squaredDistance (centroid j) p := by
  let key : CodebookRow K → F32 K × ℕ :=
    fun row => (l2sqDist (exact MAX) row.centroid (p.map some), row.centroidId)
  have hkeys : ((rowsOf table i).map key).Perm
      ((List.range n).map fun j => (some (squaredDistance (centroid j) p), j)) := by
    have hmap := hrows.map key
    rw [List.map_map] at hmap
    refine hmap.trans (List.Perm.of_eq (List.map_congr_left fun j _ => ?_))
    exact Prod.ext (l2sqDist_exact MAX _ _) rfl
  have hquery : (rowsOf table i).mapM (fun row =>
      (arrayDist (exact MAX) row.centroid (p.map some)).map fun d => (d, row.centroidId)) =
        .ok ((rowsOf table i).map key) := by
    apply mapM_map_ok.mpr
    intro row hrow
    obtain ⟨j, hj, rfl⟩ := List.mem_map.mp (hrows.mem_iff.mp hrow)
    have hsize : ((centroid j).map some).length = (p.map some).length := by
      rw [List.length_map, List.length_map, hsizes j (List.mem_range.mp hj)]
    rw [arrayDist, if_neg (not_not.mpr hsize)]
    rfl
  have hne : (rowsOf table i).map key ≠ [] := by
    intro hnil
    rw [hnil] at hkeys
    have hlength := hkeys.length_eq
    rw [List.length_map, List.length_range] at hlength
    exact hn.ne hlength
  obtain ⟨d, hd, hhead, hleast⟩ := head_insertionSort hne
  obtain ⟨k, hk, rfl⟩ := List.mem_map.mp (hkeys.mem_iff.mp hd)
  refine ⟨k, List.mem_range.mp hk, map_eq_ok.mpr ⟨_, hquery, ?_⟩, fun j hj => ?_⟩
  · rw [hhead]
    rfl
  · have hmem := hkeys.mem_iff.mpr (List.mem_map_of_mem (List.mem_range.mpr hj))
    exact hleast _ hmem

theorem selectCenter_exact (MAX : K) {table : List (CodebookRow K)} (htable : table.Perm book.rows)
    (hv : v.length = book.vectorDim) {i : ℕ} (hi : i < book.splits) :
    ∃ k, IsNearest book v i k ∧
      selectCenter (exact MAX) table i
        (subvectorOf book.subvectorDim (v.map some) i) = .ok (some k) := by
  have hrows : (rowsOf table i).Perm ((List.range (book.clusters i)).map (book.row i)) := by
    have hperm : (rowsOf table i).Perm (rowsOf book.rows i) := htable.filter _
    rwa [rowsOf_rows, if_pos hi] at hperm
  obtain ⟨k, hk, hselect, hleast⟩ :=
    selectCenter_nearest MAX hrows (book.clusters_pos i hi) fun k hk =>
    (book.length_centroid i hi k hk).trans (length_part hv hi).symm
  rw [subvectorOf_map_some]
  exact ⟨k, ⟨hk, hleast⟩, hselect⟩

end Exact

section Loop
variable {L : Type} [LinearOrder L]

theorem loopValues_eq {d : ℕ} (hd : 0 < d) {m fuel : ℕ} (hm : m ≤ fuel) (i : ℕ) :
    loopValues ((i + m) * d) d fuel (1 + i * d) = (List.range' i m).map fun j => 1 + j * d := by
  induction m generalizing fuel i with
  | zero =>
    cases fuel with
    | zero => rfl
    | succ fuel => exact if_neg (by rw [Nat.add_zero]; omega)
  | succ m ih =>
    obtain ⟨fuel, rfl⟩ := Nat.exists_eq_add_of_le' (Nat.one_le_of_lt hm)
    have henter : 1 + i * d ≤ (i + (m + 1)) * d := by
      rw [Nat.add_mul, Nat.add_comm]
      exact Nat.add_le_add_left (Nat.mul_pos (Nat.succ_pos m) hd) _
    have hnext : 1 + i * d + d = 1 + (i + 1) * d := by rw [Nat.succ_mul, Nat.add_assoc]
    have hupper : i + (m + 1) = i + 1 + m := by omega
    rw [loopValues, if_pos henter, hnext, hupper, ih (by omega), List.range'_succ, List.map_cons]

variable {ar : Arithmetic L} {table : List (CodebookRow L)} {v : List (F32 L)} {d : ℕ}

theorem quantizeBody_of_center (hd : 0 < d) {i k : ℕ} (hend : i * d + d ≤ v.length)
    (hk : selectCenter ar table i (subvectorOf d v i) = .ok (some k)) (res : List (Option ℕ)) :
    quantizeBody ar table v d ⟨i, res⟩ (1 + i * d) = .ok ⟨i + 1, res ++ [some k]⟩ := by
  have hlast : (if 1 + i * d = v.length then v.length else 1 + i * d + d - 1) = i * d + d := by
    split_ifs with h
    · omega
    · omega
  have hslice : (v.take (i * d + d)).drop (1 + i * d - 1) = subvectorOf d v i := by
    rw [Nat.add_sub_cancel_left, List.drop_take, Nat.add_sub_cancel_left]
    rfl
  unfold quantizeBody
  dsimp only
  rw [hlast, hslice, hk]
  rfl

variable {count : ℕ} {near : ℕ → ℕ}

theorem quantizeLoop_of_centers (hd : 0 < d) (hv : v.length = count * d)
    (hnear : ∀ i < count, selectCenter ar table i (subvectorOf d v i) = .ok (some (near i)))
    {i m : ℕ} (hm : i + m ≤ count) (res : List (Option ℕ)) :
    ((List.range' i m).map fun j => 1 + j * d).foldlM (quantizeBody ar table v d) ⟨i, res⟩ =
      .ok ⟨i + m, res ++ (List.range' i m).map fun j => some (near j)⟩ := by
  induction m generalizing i res with
  | zero => rw [List.range'_zero, List.map_nil, List.map_nil, List.append_nil]; rfl
  | succ m ih =>
    have hi : i < count := by omega
    have hupper : i + (m + 1) = i + 1 + m := by omega
    rw [List.range'_succ, List.map_cons, List.map_cons, List.foldlM_cons,
      quantizeBody_of_center hd (split_end_le hv.ge hi) (hnear i hi)]
    refine (ih (by omega) (res ++ [some (near i)])).trans ?_
    rw [hupper, List.append_assoc, List.singleton_append]

theorem internalQuantizeVector_of_centers (hd : 0 < d) (hcount : 0 < count)
    (hv : v.length = count * d)
    (hnear : ∀ i < count, selectCenter ar table i (subvectorOf d v i) = .ok (some (near i))) :
    internalQuantizeVector ar v count table = arrayToPqvec
      ((List.range count).map fun i => some (near i)) := by
  have hpos : 0 < v.length := by
    rw [hv]
    exact Nat.mul_pos hcount hd
  have hdiv : v.length / count = d := by rw [hv, Nat.mul_div_cancel_left _ hcount]
  have hvalues := loopValues_eq hd (Nat.le_mul_of_pos_right count hd) 0
  rw [Nat.zero_mul, Nat.zero_add, Nat.add_zero] at hvalues
  unfold internalQuantizeVector
  rw [if_neg (List.ne_nil_of_length_pos hpos), if_neg hcount.ne', hdiv, if_neg hd.ne', hv, hvalues,
    quantizeLoop_of_centers hd hv hnear (by omega), ← List.range_eq_range']
  rfl

end Loop

theorem arrayToPqvec_eq_ok {centers : List ℕ} {codes : List UInt8} :
    arrayToPqvec (centers.map some) = .ok codes ↔
      (∀ k ∈ centers, k < 256) ∧ codes = centers.map UInt8.ofNat := by
  induction centers generalizing codes with
  | nil =>
    refine mapM_nil_ok.trans ⟨fun h => ⟨fun k hk => absurd hk List.not_mem_nil, h⟩, fun h => h.2⟩
  | cons center centers ih =>
    refine mapM_cons_ok.trans ?_
    rw [List.forall_mem_cons]
    constructor
    · rintro ⟨y, ys, hy, hys, rfl⟩
      obtain ⟨hall, rfl⟩ := ih.mp hys
      unfold pqvecElement at hy
      dsimp only at hy
      split_ifs at hy with hbig
      cases hy
      exact ⟨⟨by omega, hall⟩, rfl⟩
    · rintro ⟨⟨hcenter, hall⟩, rfl⟩
      exact ⟨UInt8.ofNat center, centers.map UInt8.ofNat, if_neg (by omega),
        ih.mpr ⟨hall, rfl⟩, rfl⟩

section Agreement
variable {K : Type} [CommRing K] [LinearOrder K] {book : Codebook K} {v : List K}

theorem internalQuantizeVector_exact {MAX : K} {table : List (CodebookRow K)}
    (htable : table.Perm book.rows) (hv : v.length = book.vectorDim) {near : ℕ → ℕ}
    (hnear : ∀ i < book.splits, OnlyNearest book v i (near i)) :
    internalQuantizeVector (exact MAX) (v.map some) book.splits table =
      arrayToPqvec ((List.range book.splits).map fun i => some (near i)) := by
  refine internalQuantizeVector_of_centers book.dim_pos book.splits_pos
    (by rw [List.length_map, hv]; rfl) ?_
  intro i hi
  obtain ⟨k, hk, hselect⟩ := selectCenter_exact MAX htable hv hi
  rw [hselect, (hnear i hi).2 k hk]

theorem representable_iff {MAX : K} {i k : ℕ} : Representable book v MAX i k ↔
    k < 256 ∧ UInt8.ofNat (if distance book v i k < MAX then k else 0) = UInt8.ofNat k := by
  apply and_congr_right
  intro hk
  split_ifs with hd
  · exact iff_of_true (Or.inl hd) rfl
  · rw [or_iff_right hd]
    constructor
    · rintro rfl
      rfl
    · intro h
      have hnat := congrArg UInt8.toNat h
      rw [UInt8.toNat_ofNat', UInt8.toNat_ofNat', Nat.mod_eq_of_lt hk] at hnat
      exact hnat.symm

/-- Old and new rows get the same code exactly if the nearest centroids are
    representable. -/
theorem codes_agree_iff (MAX : K) (hv : v.length = book.vectorDim)
    (hunique : ∀ i < book.splits, ∃! k, IsNearest book v i k) {rows table : List (CodebookRow K)}
    (hrows : Ordered book rows) (htable : table.Perm book.rows) :
    (∃ codes, writtenCode (exact MAX) (v.map some) book.splits rows = .ok codes ∧
        internalQuantizeVector (exact MAX) (v.map some) book.splits table = .ok codes) ↔
      ∀ i < book.splits, ∀ k, IsNearest book v i k → Representable book v MAX i k := by
  have hchoice : ∀ i, ∃ k, i < book.splits → OnlyNearest book v i k := by
    intro i
    by_cases hi : i < book.splits
    · obtain ⟨k, hk, honly⟩ := hunique i hi
      exact ⟨k, fun _ => ⟨hk, honly⟩⟩
    · exact ⟨0, fun h => absurd h hi⟩
  choose near hnear using hchoice
  have hids : ((List.range book.splits).map fun i => some (near i)) =
      ((List.range book.splits).map near).map some := by rw [List.map_map]; rfl
  rw [writtenCode_exact hrows hv hnear, internalQuantizeVector_exact htable hv hnear, hids]
  simp only [arrayToPqvec_eq_ok, Except.ok.injEq, exists_eq_left']
  simp only [List.map_map, List.map_inj_left, List.forall_mem_map, List.mem_range,
    Function.comp_apply]
  constructor
  · rintro ⟨hbytes, heq⟩ i hi k hk
    rw [(hnear i hi).2 k hk]
    exact representable_iff.mpr ⟨hbytes i hi, heq i hi⟩
  · intro h
    have hrep := fun i hi => representable_iff.mp (h i hi (near i) (hnear i hi).1)
    exact ⟨fun i hi => (hrep i hi).1, fun i hi => (hrep i hi).2⟩

end Agreement

def maxFloat : ℤ := (2 ^ 24 - 1) * 2 ^ 104

def ladder (step : ℤ) (clusters : ℕ) (h : 0 < clusters) : Codebook ℤ where
  splits := 1
  clusters _ := clusters
  subvectorDim := 1
  centroid _ k := [step * k]
  splits_pos := Nat.one_pos
  clusters_pos _ _ := h
  dim_pos := Nat.one_pos
  length_centroid _ _ _ _ := rfl

theorem ladder_distance {step : ℤ} {clusters : ℕ} {h : 0 < clusters} (x : ℤ) (k : ℕ) :
    distance (ladder step clusters h) [x] 0 k = (step * k - x) * (step * k - x) := add_zero _

theorem ladder_last {step x : ℤ} {n : ℕ} (hstep : 0 < step) (hx : step * n ≤ x) :
    OnlyNearest (ladder step (n + 1) n.succ_pos) [x] 0 n := by
  have hbelow : ∀ j < n + 1, step * j ≤ step * n := fun j hj =>
    mul_le_mul_of_nonneg_left (by exact_mod_cast Nat.le_of_lt_succ hj) hstep.le
  constructor
  · refine ⟨Nat.lt_succ_self n, fun j hj => ?_⟩
    have := hbelow j hj
    rw [ladder_distance, ladder_distance]
    nlinarith
  · rintro j ⟨hj, hleast⟩
    have hle := hbelow j hj
    have hn := hleast n (Nat.lt_succ_self n)
    rw [ladder_distance, ladder_distance] at hn
    have hge : step * n ≤ step * j := by nlinarith
    have heq : (j : ℤ) = n := mul_left_cancel₀ hstep.ne' (le_antisymm hle hge)
    exact_mod_cast heq

theorem ladder_ordered (step : ℤ) (clusters : ℕ) (h : 0 < clusters) :
    Ordered (ladder step clusters h) (ladder step clusters h).rows := by
  refine ⟨List.Perm.refl _, ?_⟩
  have hrows :
      (ladder step clusters h).rows = (List.range clusters).map ((ladder step clusters h).row 0) :=
    List.append_nil _
  rw [hrows, List.pairwise_map]
  exact List.pairwise_lt_range.imp Nat.le_of_lt

section Ladder
variable {step x : ℤ} {clusters k : ℕ} {h : 0 < clusters}

theorem ladder_nearest (hk : OnlyNearest (ladder step clusters h) [x] 0 k) :
    ∀ i < (ladder step clusters h).splits, OnlyNearest (ladder step clusters h) [x] i k := by
  intro i hi
  rw [Nat.lt_one_iff.mp hi]
  exact hk

theorem ladder_writtenCode (MAX : ℤ) (hk : OnlyNearest (ladder step clusters h) [x] 0 k) :
    writtenCode (exact MAX) [some x] 1 (ladder step clusters h).rows =
      .ok [UInt8.ofNat (if (step * k - x) * (step * k - x) < MAX then k else 0)] := by
  have hcode :=
    @writtenCode_exact ℤ _ _ (ladder step clusters h) [x] MAX _ (ladder_ordered step clusters h) rfl
    (fun _ => k) (ladder_nearest hk)
  simp only [ladder, List.range_one, List.map_cons, List.map_nil] at hcode
  rw [← @ladder_distance step clusters h]
  exact hcode

theorem ladder_internalQuantizeVector (MAX : ℤ)
    (hk : OnlyNearest (ladder step clusters h) [x] 0 k) :
    internalQuantizeVector (exact MAX) [some x] 1 (ladder step clusters h).rows =
      arrayToPqvec [some k] :=
  @internalQuantizeVector_exact ℤ _ _ (ladder step clusters h) [x] MAX _ (List.Perm.refl _)
    rfl (fun _ => k)
    (ladder_nearest hk)

end Ladder

theorem two_centroids_agree :
    ∃ codes, writtenCode (exact maxFloat) [some 12] 1 (ladder 10 2 Nat.two_pos).rows = .ok codes ∧
      internalQuantizeVector (exact maxFloat) [some 12] 1
        (ladder 10 2 Nat.two_pos).rows = .ok codes := by
  have hnear : OnlyNearest (ladder 10 2 Nat.two_pos) [12] 0 1 := ladder_last (by decide) (by decide)
  have hunique :
      ∀ i < (ladder 10 2 Nat.two_pos).splits, ∃! k, IsNearest (ladder 10 2 Nat.two_pos) [12] i k :=
    fun i hi => ⟨1, (ladder_nearest hnear i hi).1, (ladder_nearest hnear i hi).2⟩
  apply (codes_agree_iff maxFloat (v := [12]) rfl hunique (ladder_ordered 10 2 Nat.two_pos)
    (List.Perm.refl _)).mpr
  intro i hi k hk
  rw [(ladder_nearest hnear i hi).2 k hk, Nat.lt_one_iff.mp hi]
  exact ⟨by decide, Or.inl (by rw [ladder_distance]; decide)⟩

/-- The codes of one row before and after the trigger is there: of a row nearest to
    centroid 256, and of a row that is far from every centroid. -/
theorem old_and_new_codes_differ :
    (OnlyNearest (ladder 1 257 (Nat.succ_pos 256)) [256] 0 256 ∧
      writtenCode (exact maxFloat) [some 256] 1 (ladder 1 257 (Nat.succ_pos 256)).rows = .ok [0] ∧
      internalQuantizeVector (exact maxFloat) [some 256] 1 (ladder 1 257 (Nat.succ_pos 256)).rows =
        .error (.raised "Compressed vector element can not be bigger than 255")) ∧
    (OnlyNearest (ladder (2 ^ 100) 2 Nat.two_pos) [2 ^ 101] 0 1 ∧
      writtenCode (exact maxFloat) [some (2 ^ 101)] 1
        (ladder (2 ^ 100) 2 Nat.two_pos).rows = .ok [0] ∧
      internalQuantizeVector (exact maxFloat) [some (2 ^ 101)] 1
        (ladder (2 ^ 100) 2 Nat.two_pos).rows = .ok [1]) := by
  have hmany : OnlyNearest (ladder 1 257 (Nat.succ_pos 256)) [256] 0 256 :=
    ladder_last (by decide) (by decide)
  have hfar : OnlyNearest (ladder (2 ^ 100) 2 Nat.two_pos) [2 ^ 101] 0 1 :=
    ladder_last (by decide) (by decide)
  refine ⟨⟨hmany, ?_, ?_⟩, hfar, ?_, ?_⟩
  · rw [ladder_writtenCode maxFloat hmany, if_pos (by decide)]
    rfl
  · exact ladder_internalQuantizeVector maxFloat hmany
  · rw [ladder_writtenCode maxFloat hfar, if_neg (by decide)]
    rfl
  · exact ladder_internalQuantizeVector maxFloat hfar

end Lantern.TriggerCodes
