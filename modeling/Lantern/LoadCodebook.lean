import Lantern.BlockWrites
import Lantern.TriggerCodes

set_option autoImplicit false

/-!
# The codebook in memory

An index over codes loads its codebook table into one array with a vector of the whole
dimension for each centroid number. A row goes to the place that its two numbers give,
and the numbers of centroids and of subvectors are found from the last row and from the
count of the rows.
-/
namespace Lantern.LoadCodebook
open Fallible ProductQuantization QuantizationTasks TriggerCodes BlockWrites

def NAMEDATALEN : ℕ := 64

inductive Fault where
  | elog (text : String)
  | writePastBuffer
  | uninitialized
  | divisionByZero
  deriving DecidableEq, Repr

/-- The names of the indexed table and of its column, and the tables of the internal
    schema. -/
structure Catalog (L : Type) where
  relname : Option String
  colname : Option String
  relnameRelid : String → Option (List (CodebookRow L))

structure LoadState (L : Type) where
  codebook : List (F32 L)
  subvectorDim : Option ℕ
  numCentroids : ℕ

structure PqCodebook (L : Type) where
  codebook : List (F32 L)
  numCentroids : ℕ
  numSubvectors : ℕ

section Load
variable {L : Type}

def findCodebook (catalog : Catalog L) : Except Fault (List (CodebookRow L)) :=
  match catalog.relname, catalog.colname with
  | none, _ => .error (.elog "index relation not found")
  | some _, none => .error (.elog "vector column not found")
  | some relname, some colname =>
    let pqRelname := s!"pq_{relname}_{colname}"
    if NAMEDATALEN ≤ pqRelname.utf8ByteSize then
      .error (.elog "formatted codebook table name is too long")
    else match catalog.relnameRelid pqRelname with
      | none => .error (.elog s!"PQ-codebook for relation \"{relname}\" not found")
      | some rows => .ok rows

def rowBlock (vectorDimensions : ℕ) (row : CodebookRow L) : Block (F32 L) :=
  ⟨row.centroidId * vectorDimensions + row.subvectorId * row.centroid.length, row.centroid⟩

def loadRow (vectorDimensions : ℕ) (s : LoadState L) (row : CodebookRow L) :
    Except Fault (LoadState L) :=
  match write s.codebook (rowBlock vectorDimensions row) with
  | none => .error .writePastBuffer
  | some codebook => .ok ⟨codebook, some row.centroid.length, s.numCentroids + 1⟩

def countLoaded (vectorDimensions : ℕ) (s : LoadState L) : Except Fault (PqCodebook L) :=
  match s.subvectorDim with
  | none => .error .uninitialized
  | some subvectorDim =>
    if subvectorDim = 0 then .error .divisionByZero
    else
      let numSubvectors := vectorDimensions / subvectorDim
      if numSubvectors = 0 then .error .divisionByZero
      else .ok ⟨s.codebook, s.numCentroids / numSubvectors, numSubvectors⟩

def loadPqCodebook [Zero L] (catalog : Catalog L) (vectorDimensions : ℕ) :
    Except Fault (PqCodebook L) :=
  (findCodebook catalog).bind fun rows =>
    (rows.foldlM (loadRow vectorDimensions) ⟨List.replicate (vectorDimensions * 256) (some 0),
      none, 0⟩).bind
      (countLoaded vectorDimensions)

end Load

section Picture
variable {K : Type} (book : Codebook K)

/-- What the array has to hold at an index: the number of the centroid, then that of the
    subvector, then that of the component. -/
def picture (i : ℕ) : F32 K :=
  (book.centroid (i % book.vectorDim / book.subvectorDim) (i / book.vectorDim))[i % book.vectorDim %
    book.subvectorDim]?

variable {book}

theorem component_lt {s j : ℕ} (hs : s < book.splits) (hj : j < book.subvectorDim) :
    s * book.subvectorDim + j < book.vectorDim :=
  calc s * book.subvectorDim + j < s * book.subvectorDim + book.subvectorDim :=
    Nat.add_lt_add_left hj _
    _ = (s + 1) * book.subvectorDim := (Nat.succ_mul s book.subvectorDim).symm
    _ ≤ book.vectorDim := Nat.mul_le_mul_right _ hs

theorem picture_component {s j : ℕ} (hs : s < book.splits) (hj : j < book.subvectorDim) (c : ℕ) :
    picture book (c * book.vectorDim + s * book.subvectorDim + j) = (book.centroid s c)[j]? := by
  have hlt := component_lt hs hj
  have hdiv : (c * book.vectorDim + (s * book.subvectorDim + j)) / book.vectorDim = c := by
    rw [Nat.mul_comm, Nat.mul_add_div (Nat.zero_lt_of_lt hlt), Nat.div_eq_of_lt hlt, Nat.add_zero]
  have hmod : (c * book.vectorDim + (s * book.subvectorDim + j)) %
      book.vectorDim = s * book.subvectorDim + j := by
    rw [Nat.mul_comm, Nat.mul_add_mod, Nat.mod_eq_of_lt hlt]
  have hpart : (s * book.subvectorDim + j) / book.subvectorDim = s := by
    rw [Nat.mul_comm, Nat.mul_add_div book.dim_pos, Nat.div_eq_of_lt hj, Nat.add_zero]
  have hrest : (s * book.subvectorDim + j) % book.subvectorDim = j := by
    rw [Nat.mul_comm, Nat.mul_add_mod, Nat.mod_eq_of_lt hj]
  rw [picture, Nat.add_assoc, hdiv, hmod, hpart, hrest]

variable {row : CodebookRow K}

theorem length_row (h : row ∈ book.rows) : row.centroid.length = book.subvectorDim := by
  obtain ⟨s, hs, c, hc, rfl⟩ := mem_rows_iff.mp h
  rw [Codebook.row, List.length_map, book.length_centroid s hs c hc]

theorem rowBlock_piece (h : row ∈ book.rows) :
    (rowBlock book.vectorDim row).PieceOf (picture book) := by
  have hlength := length_row h
  obtain ⟨s, hs, c, hc, rfl⟩ := mem_rows_iff.mp h
  intro j hj
  have hj : j < book.subvectorDim := hlength ▸ hj
  have hget : j < (book.centroid s c).length := by rwa [book.length_centroid s hs c hc]
  simp only [rowBlock, hlength]
  change ((book.centroid s c).map some)[j]? =
    some (picture book (c * book.vectorDim + s * book.subvectorDim + j))
  rw [picture_component hs hj, List.getElem?_map, List.getElem?_eq_getElem hget]
  rfl

theorem rowBlock_stop_le (hclusters : ∀ i < book.splits, book.clusters i ≤ 256)
    (h : row ∈ book.rows) :
    (rowBlock book.vectorDim row).stop ≤ book.vectorDim * 256 := by
  have hlength := length_row h
  obtain ⟨s, hs, c, hc, rfl⟩ := mem_rows_iff.mp h
  have hend : s * book.subvectorDim + book.subvectorDim ≤ book.vectorDim := split_end_le le_rfl hs
  rw [Block.stop]
  simp only [rowBlock, hlength]
  change c * book.vectorDim + s * book.subvectorDim + book.subvectorDim ≤ _
  calc c * book.vectorDim + s * book.subvectorDim + book.subvectorDim ≤ c * book.vectorDim +
    book.vectorDim := by omega
    _ = (c + 1) * book.vectorDim := (Nat.succ_mul c book.vectorDim).symm
    _ ≤ book.vectorDim * 256 := by
      rw [Nat.mul_comm]
      exact Nat.mul_le_mul_left _ (hc.trans_le (hclusters s hs))

end Picture

section Loading
variable {K : Type} {book : Codebook K}

structure Loaded (book : Codebook K) (rows : List (CodebookRow K)) (start : List (F32 K))
    (s : LoadState K) : Prop where
  written : Written (rows.map (rowBlock book.vectorDim)) (picture book) start s.codebook
  counted : s.numCentroids = rows.length
  subvectorDim : rows ≠ [] → s.subvectorDim = some book.subvectorDim

theorem foldlM_loadRow (hclusters : ∀ i < book.splits, book.clusters i ≤ 256) {start : List (F32 K)}
    (hstart : start.length = book.vectorDim * 256) (rows : List (CodebookRow K))
    (hrows : ∀ row ∈ rows, row ∈ book.rows) :
    ∃ s, rows.foldlM (loadRow book.vectorDim) ⟨start, none, 0⟩ = .ok s ∧
      Loaded book rows start s := by
  induction rows using List.reverseRecOn with
  | nil => exact ⟨_, rfl, .nil, rfl, fun h => absurd rfl h⟩
  | append_singleton rows row ih =>
    obtain ⟨hbefore, hrow⟩ := List.forall_mem_append.mp hrows
    have hrow := hrow row (List.mem_singleton_self row)
    obtain ⟨s, hs, hloaded⟩ := ih hbefore
    have hinside : (rowBlock book.vectorDim row).stop ≤ s.codebook.length := by
      rw [hloaded.written.length_eq, hstart]
      exact rowBlock_stop_le hclusters hrow
    obtain ⟨after, hwrite, hwritten⟩ := write_piece (rowBlock_piece hrow) hinside
    refine ⟨⟨after, some row.centroid.length, s.numCentroids + 1⟩, ?_, ?_, ?_, fun _ => ?_⟩
    · rw [List.foldlM_append, hs]
      simp only [bind, Except.bind, List.foldlM_cons, List.foldlM_nil, loadRow, hwrite,
        pure, Except.pure]
    · rw [List.map_append]
      exact hloaded.written.concat hwritten
    · rw [List.length_append, hloaded.counted]
      rfl
    · exact congrArg some (length_row hrow)

variable {clusters : ℕ}

theorem length_rows (huniform : ∀ i < book.splits, book.clusters i = clusters) :
    book.rows.length = book.splits * clusters := by
  have hsizes :
      (List.range book.splits).map (List.length ∘ fun i =>
      (List.range (book.clusters i)).map (book.row i)) =
      (List.range book.splits).map fun _ => clusters := by
    apply List.map_congr_left
    intro i hi
    rw [Function.comp_apply, List.length_map, List.length_range, huniform i (List.mem_range.mp hi)]
  rw [Codebook.rows, List.length_flatMap]
  exact (congrArg List.sum hsizes).trans (by simp)

theorem countLoaded_book (huniform : ∀ i < book.splits, book.clusters i = clusters)
    {rows : List (CodebookRow K)} (hperm : rows.Perm book.rows) {start : List (F32 K)}
    {s : LoadState K} (h : Loaded book rows start s) :
    countLoaded book.vectorDim s = .ok ⟨s.codebook, clusters, book.splits⟩ := by
  have hlength : rows.length = book.splits * clusters :=
    hperm.length_eq.trans (length_rows huniform)
  have hne : rows ≠ [] := by
    rintro rfl
    exact absurd hlength
      (Nat.mul_pos book.splits_pos (huniform 0 book.splits_pos ▸
      book.clusters_pos 0 book.splits_pos)).ne
  have hsplits : book.vectorDim / book.subvectorDim = book.splits :=
    Nat.mul_div_cancel _ book.dim_pos
  have hcentroids : s.numCentroids / book.splits = clusters := by
    rw [h.counted, hlength, Nat.mul_div_cancel_left _ book.splits_pos]
  rw [countLoaded, h.subvectorDim hne]
  dsimp only
  rw [if_neg book.dim_pos.ne', hsplits, if_neg book.splits_pos.ne', hcentroids]

/-- A complete codebook, with the same number of centroids for each subvector, is loaded into one
    and the same array, in whatever order its rows are. Every centroid is at its place there. -/
theorem loadPqCodebook_complete [Zero K] (book : Codebook K)
    (huniform : ∀ i < book.splits, book.clusters i = clusters) (hclusters : clusters ≤ 256) :
    ∃ codebook : List (F32 K), codebook.length = 256 * book.vectorDim ∧
      (∀ s < book.splits, ∀ c < clusters, ∀ j < book.subvectorDim,
        codebook[c * book.vectorDim + s * book.subvectorDim + j]? = some ((book.centroid s c)[j]?))
          ∧
      ∀ catalog rows, findCodebook catalog = .ok rows → rows.Perm book.rows →
        loadPqCodebook catalog book.vectorDim = .ok ⟨codebook, clusters, book.splits⟩ := by
  have hstart :
      (List.replicate (book.vectorDim * 256) (some (0 : K))).length = book.vectorDim * 256 :=
    List.length_replicate
  have hbytes : ∀ i < book.splits, book.clusters i ≤ 256 :=
    fun i hi => (huniform i hi).le.trans hclusters
  obtain ⟨s, -, hs⟩ := foldlM_loadRow hbytes hstart book.rows fun _ h => h
  refine ⟨s.codebook, ?_, fun i hi c hc j hj => ?_, fun catalog rows hfind hperm => ?_⟩
  · rw [hs.written.length_eq, hstart, Nat.mul_comm]
  · rw [← picture_component hi hj]
    apply hs.written.covered
    have hrow : book.row i c ∈ book.rows :=
      mem_rows_iff.mpr ⟨i, hi, c, (huniform i hi).symm ▸ hc, rfl⟩
    refine ⟨_, List.mem_map_of_mem hrow, ?_⟩
    have hlength := length_row hrow
    rw [Block.Covers, Block.stop]
    simp only [rowBlock, hlength]
    change c * book.vectorDim + i * book.subvectorDim ≤ _ ∧
      _ < c * book.vectorDim + i * book.subvectorDim + _
    omega
  · obtain ⟨s', hs', hloaded⟩ := foldlM_loadRow hbytes hstart rows fun _ h => hperm.mem_iff.mp h
    have hsame := hloaded.written.eq_of_perm hs.written (hperm.map _)
    rw [loadPqCodebook, hfind, Except.bind, hs', Except.bind,
      countLoaded_book huniform hperm hloaded, hsame]

end Loading

def twoByTwo : Codebook ℤ where
  splits := 2
  clusters _ := 2
  subvectorDim := 1
  centroid s c := [(10 * s + c : ℤ)]
  splits_pos := Nat.two_pos
  clusters_pos _ _ := Nat.two_pos
  dim_pos := Nat.one_pos
  length_centroid _ _ _ _ := rfl

def shuffled : Catalog ℤ where
  relname := some "t"
  colname := some "v"
  relnameRelid name :=
    if name = "pq_t_v" then some [twoByTwo.row 1 0, twoByTwo.row 0 1, twoByTwo.row 1 1,
      twoByTwo.row 0 0] else none

theorem twoByTwo_loads :
    ∃ codebook : List (F32 ℤ), codebook.length = 512 ∧
      (∀ s < 2, ∀ c < 2, ∀ j < 1, codebook[c * 2 + s * 1 + j]? = some ((twoByTwo.centroid s c)[j]?))
        ∧
      loadPqCodebook shuffled 2 = .ok ⟨codebook, 2, 2⟩ := by
  obtain ⟨codebook, hlength, hplaces, hload⟩ :=
    loadPqCodebook_complete twoByTwo (fun _ _ => rfl) (by decide)
  refine ⟨codebook, hlength, hplaces, hload shuffled _ rfl ?_⟩
  have hmoved : [twoByTwo.row 1 0, twoByTwo.row 0 1, twoByTwo.row 1 1, twoByTwo.row 0 0].Perm
      [twoByTwo.row 0 0, twoByTwo.row 1 0, twoByTwo.row 0 1, twoByTwo.row 1 1] :=
    @List.perm_append_comm _ [_, _, _] [_]
  have hswapped :
      [twoByTwo.row 0 0, twoByTwo.row 1 0, twoByTwo.row 0 1, twoByTwo.row 1 1].Perm twoByTwo.rows :=
    .cons _ (.swap _ _ _)
  exact hmoved.trans hswapped

end Lantern.LoadCodebook
