import Lantern.TriggerCodes

set_option autoImplicit false

/-!
# From vectors to codes and back

`quantize_vector` looks for the nearest centroid of every subvector, and
`dequantize_vector` puts the centroids that a code names behind each other. With a
complete codebook of different centroids the second undoes the first. A `pqvec` counts
its elements in a `uint16`, so all of this ends at 65536 subvectors.
-/
namespace Lantern.CodebookInverse
open Fallible ProductQuantization QuantizationTasks TriggerCodes

/-- `dim` is what is left of the number of elements in a `uint16`, `data` has them all. -/
structure PQVec where
  dim : UInt16
  data : List UInt8
  deriving DecidableEq, Repr

def newPQVec (data : List UInt8) : PQVec := ⟨UInt16.ofNat data.length, data⟩

def pqvecToArray (q : PQVec) : List ℕ := (q.data.take q.dim.toNat).map UInt8.toNat

section Database
variable {L : Type}

def quantizeVector [LinearOrder L] (ar : Arithmetic L) (v : List (F32 L))
    (codebook : List (CodebookRow L)) :
    Except SqlError PQVec :=
  let subvectorCount := codebook.countP fun row => row.centroidId == 0
  if subvectorCount = 0 then .error (.raised "Empty codebook")
  else (internalQuantizeVector ar v subvectorCount codebook).map newPQVec

def selectCentroid (codebook : List (CodebookRow L)) (subvectorId centroidId : ℕ) :
    Option (List (F32 L)) :=
  (codebook.find? fun row => row.subvectorId == subvectorId && row.centroidId == centroidId).map
    CodebookRow.centroid

structure DequantizeState (L : Type) where
  subvectorId : ℕ
  res : List (F32 L)

/-- A query without a row leaves a null, and appending a null changes nothing. -/
def dequantizeBody (codebook : List (CodebookRow L)) (s : DequantizeState L) (centroidId : ℕ) :
    DequantizeState L :=
  ⟨s.subvectorId + 1, s.res ++ (selectCentroid codebook s.subvectorId centroidId).getD []⟩

def dequantizeVector (q : PQVec) (codebook : List (CodebookRow L)) :
    Except SqlError (List (F32 L)) :=
  let subvectorCount := (codebook.map CodebookRow.subvectorId).dedup.length
  let v := pqvecToArray q
  -- the length of an empty array is null, and so is the comparison with it
  if v ≠ [] ∧ subvectorCount ≠ v.length then
    .error (.raised
      s!"Codebook has {subvectorCount} subvectors, but vector is quantized in {v.length} subvectors")
  else .ok (v.foldl (dequantizeBody codebook) ⟨0, []⟩).res

end Database

/-- The centroids of a subvector are different, and their numbers are bytes. -/
structure CompleteBook (K : Type) extends Codebook K where
  clusters_le : ∀ i < splits, clusters i ≤ 256
  distinct : ∀ i < splits, ∀ j < clusters i, ∀ k < clusters i, centroid i j = centroid i k → j = k

namespace CompleteBook
variable {K : Type} (book : CompleteBook K)

def Stored (codebook : List (CodebookRow K)) : Prop := codebook.Perm book.rows

def Choice (near : ℕ → ℕ) : Prop := ∀ i < book.splits, near i < book.clusters i

def codeOf (near : ℕ → ℕ) : PQVec :=
  newPQVec ((List.range book.splits).map fun i => UInt8.ofNat (near i))

def vectorOf (near : ℕ → ℕ) : List K :=
  ((List.range book.splits).map fun i => book.centroid i (near i)).flatten

end CompleteBook

variable {i : ℕ}

section Queries
variable {K : Type} {book : CompleteBook K} {codebook : List (CodebookRow K)}

theorem countP_stored (h : book.Stored codebook) :
    (codebook.countP fun row => row.centroidId == 0) = book.splits := by
  have hones : (List.range book.splits).map ((List.countP fun row => row.centroidId == 0) ∘
      fun i => (List.range (book.clusters i)).map (book.row i)) =
      (List.range book.splits).map fun _ => 1 := by
    apply List.map_congr_left
    intro i hi
    have hmem := List.mem_range.mpr (book.clusters_pos i (List.mem_range.mp hi))
    rw [Function.comp_apply, List.countP_map]
    exact List.count_eq_one_of_mem List.nodup_range hmem
  rw [h.countP_eq, Codebook.rows, List.countP_flatMap, hones]
  simp

theorem length_dedup_stored (h : book.Stored codebook) :
    (codebook.map CodebookRow.subvectorId).dedup.length = book.splits := by
  have hperm : (codebook.map CodebookRow.subvectorId).dedup.Perm (List.range book.splits) := by
    refine (List.perm_ext_iff_of_nodup (List.nodup_dedup _) List.nodup_range).mpr fun i => ?_
    rw [List.mem_dedup, List.mem_map, List.mem_range]
    constructor
    · rintro ⟨r, hr, rfl⟩
      obtain ⟨i, hi, k, -, rfl⟩ := mem_rows_iff.mp (h.mem_iff.mp hr)
      exact hi
    · intro hi
      exact ⟨book.row i 0,
        h.mem_iff.mpr (mem_rows_iff.mpr ⟨i, hi, 0, book.clusters_pos i hi, rfl⟩), rfl⟩
  rw [hperm.length_eq, List.length_range]

theorem selectCentroid_stored (h : book.Stored codebook) {k : ℕ} (hi : i < book.splits)
    (hk : k < book.clusters i) :
    selectCentroid codebook i k = some ((book.centroid i k).map some) := by
  have hmem : book.row i k ∈ codebook := h.mem_iff.mpr (mem_rows_iff.mpr ⟨i, hi, k, hk, rfl⟩)
  unfold selectCentroid
  cases hfind : codebook.find? fun row => row.subvectorId == i && row.centroidId == k with
  | none => exact absurd (List.find?_eq_none.mp hfind _ hmem) (by simp [Codebook.row])
  | some r =>
    -- a row is known by its numbers
    have hids := List.find?_some hfind
    obtain ⟨i', -, k', -, rfl⟩ := mem_rows_iff.mp (h.mem_iff.mp (List.mem_of_find?_eq_some hfind))
    obtain ⟨rfl, rfl⟩ : i' = i ∧ k' = k := by simpa [Codebook.row] using hids
    rfl

end Queries

section Codes
variable {K : Type} {book : CompleteBook K}

theorem pqvecToArray_codeOf {near : ℕ → ℕ} (hnear : book.Choice near) :
    pqvecToArray (book.codeOf near) = (List.range (book.splits % 2 ^ 16)).map near := by
  have hle := Nat.mod_le book.splits (2 ^ 16)
  have hdim : (book.codeOf near).dim.toNat = book.splits % 2 ^ 16 := by
    simp only [CompleteBook.codeOf, newPQVec, UInt16.toNat_ofNat', List.length_map,
      List.length_range]
  unfold pqvecToArray
  rw [hdim, CompleteBook.codeOf, newPQVec, ← List.map_take, List.take_range,
    Nat.min_eq_left hle, List.map_map]
  apply List.map_congr_left
  intro i hi
  have hi : i < book.splits := lt_of_lt_of_le (List.mem_range.mp hi) hle
  rw [Function.comp_apply, UInt8.toNat_ofNat']
  exact Nat.mod_eq_of_lt (lt_of_lt_of_le (hnear i hi) (book.clusters_le i hi))

/-- A code with a number for each subvector, and each the number of a centroid. -/
structure Valid (book : CompleteBook K) (q : PQVec) : Prop where
  filled : q.data.length = q.dim.toNat
  length : (pqvecToArray q).length = book.splits
  named : ∀ i k, (pqvecToArray q)[i]? = some k → k < book.clusters i

theorem Valid.exists_choice {q : PQVec} (h : Valid book q) : ∃ near, book.Choice near ∧
      q = book.codeOf near := by
  have htake : q.data.take q.dim.toNat = q.data := by rw [← h.filled, List.take_length]
  have hlength : q.data.length = book.splits := by
    rw [← h.length, pqvecToArray, htake, List.length_map]
  have hget : ∀ i : ℕ, (pqvecToArray q)[i]? = q.data[i]?.map UInt8.toNat := by
    intro i
    rw [pqvecToArray, htake, List.getElem?_map]
  refine ⟨fun i => (q.data.getD i 0).toNat, fun i hi => ?_, ?_⟩
  · apply h.named i
    dsimp only
    rw [hget, List.getD_eq_getElem?_getD, List.getElem?_eq_getElem (hlength ▸ hi)]
    rfl
  · have hdata :
        ((List.range book.splits).map fun i => UInt8.ofNat (q.data.getD i 0).toNat) = q.data := by
      simp only [UInt8.ofNat_toNat]
      apply List.ext_getElem
      · rw [List.length_map, List.length_range, hlength]
      · intro i h₁ h₂
        rw [List.getElem_map, List.getElem_range, List.getD_eq_getElem?_getD,
          List.getElem?_eq_getElem h₂]
        rfl
    rw [CompleteBook.codeOf, newPQVec, hdata, h.filled, UInt16.ofNat_toNat]

theorem slice_flatten {α : Type} {d : ℕ} {pieces : List (List α)} (h : ∀ p ∈ pieces, p.length = d)
    {p : List α} (hp : pieces[i]? = some p) : (pieces.flatten.drop (i * d)).take d = p := by
  induction pieces generalizing i with
  | nil => cases hp
  | cons first pieces ih =>
    obtain ⟨hfirst, hrest⟩ := List.forall_mem_cons.mp h
    rw [List.flatten_cons]
    cases i with
    | zero =>
      rw [List.getElem?_cons_zero, Option.some.injEq] at hp
      rw [Nat.zero_mul, List.drop_zero, ← hfirst, List.take_left, hp]
    | succ i =>
      rw [List.getElem?_cons_succ] at hp
      rw [Nat.succ_mul, Nat.add_comm, ← List.drop_drop, ← hfirst, List.drop_left, hfirst]
      exact ih hrest hp

variable {near : ℕ → ℕ}

theorem length_pieces (hnear : book.Choice near) :
    ∀ p ∈ (List.range book.splits).map fun i =>
      book.centroid i (near i), p.length = book.subvectorDim := by
  intro p hp
  obtain ⟨i, hi, rfl⟩ := List.mem_map.mp hp
  have hi := List.mem_range.mp hi
  exact book.length_centroid i hi (near i) (hnear i hi)

theorem length_vectorOf (hnear : book.Choice near) :
    (book.vectorOf near).length = book.vectorDim := by
  rw [CompleteBook.vectorOf, List.length_flatten,
    List.eq_replicate_of_mem (List.forall_mem_map.mpr (length_pieces hnear))]
  simp [Codebook.vectorDim]

theorem part_vectorOf (hnear : book.Choice near) (hi : i < book.splits) :
    part book.toCodebook (book.vectorOf near) i = book.centroid i (near i) := by
  apply slice_flatten (length_pieces hnear)
  rw [List.getElem?_map, List.getElem?_range hi]
  rfl

end Codes

section Quantize
variable {K : Type} {book : CompleteBook K}

variable [CommRing K] [LinearOrder K]

theorem quantizeVector_nearest (MAX : K) {codebook : List (CodebookRow K)}
    (h : book.Stored codebook) {v : List K} (hv : v.length = book.vectorDim) :
    ∃ near, quantizeVector (exact MAX) (v.map some) codebook = .ok (book.codeOf near) ∧
      ∀ i < book.splits, IsNearest book.toCodebook v i (near i) := by
  have hselect : ∀ i, ∃ k, i < book.splits → IsNearest book.toCodebook v i k ∧
      selectCenter (exact MAX) codebook i (subvectorOf book.subvectorDim (v.map some) i) =
      .ok (some k) := by
    intro i
    by_cases hi : i < book.splits
    · obtain ⟨k, hk⟩ := selectCenter_exact MAX h hv hi
      exact ⟨k, fun _ => hk⟩
    · exact ⟨0, fun h => absurd h hi⟩
  choose near hnear using hselect
  have hlength : (v.map some).length = book.splits * book.subvectorDim := by
    rw [List.length_map, hv]
    rfl
  have hbytes : ∀ k ∈ (List.range book.splits).map near, k < 256 := by
    intro k hk
    obtain ⟨i, hi, rfl⟩ := List.mem_map.mp hk
    have hi := List.mem_range.mp hi
    exact lt_of_lt_of_le (hnear i hi).1.1 (book.clusters_le i hi)
  have hcast := arrayToPqvec_eq_ok.mpr ⟨hbytes, rfl⟩
  refine ⟨near, ?_, fun i hi => (hnear i hi).1⟩
  unfold quantizeVector
  dsimp only
  rw [countP_stored h, if_neg book.splits_pos.ne',
    internalQuantizeVector_of_centers book.dim_pos book.splits_pos hlength fun i hi =>
    (hnear i hi).2]
  rw [List.map_map, List.map_map] at hcast
  exact congrArg (Except.map newPQVec) hcast

end Quantize

section Dequantize
variable {K : Type} {book : CompleteBook K} {codebook : List (CodebookRow K)} {near : ℕ → ℕ}

theorem foldl_dequantizeBody (h : book.Stored codebook) (hnear : book.Choice near) {m : ℕ}
    (hm : i + m ≤ book.splits) (res : List (F32 K)) :
    ((List.range' i m).map near).foldl (dequantizeBody codebook) ⟨i, res⟩ =
      ⟨i + m, res ++ ((List.range' i m).map fun j =>
        book.centroid j (near j)).flatten.map some⟩ := by
  induction m generalizing i res with
  | zero => simp
  | succ m ih =>
    have hi : i < book.splits := by omega
    have hbody :
        dequantizeBody codebook ⟨i, res⟩ (near i) =
        ⟨i + 1, res ++ (book.centroid i (near i)).map some⟩ := by
      unfold dequantizeBody
      rw [selectCentroid_stored h hi (hnear i hi)]
      rfl
    rw [List.range'_succ, List.map_cons, List.foldl_cons, hbody, ih (by omega), List.map_cons,
      List.flatten_cons, List.map_append, List.append_assoc, Nat.add_right_comm,
      Nat.add_assoc i m 1]

theorem dequantizeVector_codeOf (h : book.Stored codebook) (hnear : book.Choice near)
    (hcount : book.splits < 2 ^ 16) :
    dequantizeVector (book.codeOf near) codebook = .ok ((book.vectorOf near).map some) := by
  have hloop := foldl_dequantizeBody h hnear (Nat.zero_add book.splits).le []
  unfold dequantizeVector
  dsimp only
  rw [pqvecToArray_codeOf hnear, Nat.mod_eq_of_lt hcount, length_dedup_stored h, List.length_map,
    List.length_range, if_neg fun h => h.2 rfl, List.range_eq_range', hloop, ← List.range_eq_range']
  rfl

end Dequantize

section Distance
variable {K : Type} [CommRing K]

theorem squaredDistance_cons (x y : K) (a b : List K) :
    squaredDistance (x :: a) (y :: b) = (x - y) * (x - y) + squaredDistance a b := List.sum_cons

theorem squaredDistance_self (a : List K) : squaredDistance a a = 0 := by
  induction a with
  | nil => rfl
  | cons x a ih => rw [squaredDistance_cons, ih, sub_self, mul_zero, add_zero]

variable [LinearOrder K] [IsStrictOrderedRing K]

theorem squaredDistance_nonneg (a b : List K) : 0 ≤ squaredDistance a b := by
  apply List.sum_nonneg
  intro x hx
  obtain ⟨p, -, rfl⟩ := List.mem_map.mp hx
  exact mul_self_nonneg _

theorem eq_of_squaredDistance_le {a b : List K} (hlength : a.length = b.length)
    (h : squaredDistance a b ≤ 0) :
    a = b := by
  induction a generalizing b with
  | nil => exact (List.length_eq_zero_iff.mp hlength.symm).symm
  | cons x a ih =>
    cases b with
    | nil => cases hlength
    | cons y b =>
      rw [squaredDistance_cons] at h
      have hrest := squaredDistance_nonneg a b
      have hfirst := mul_self_nonneg (x - y)
      have hzero : (x - y) * (x - y) = 0 := le_antisymm (by linarith) hfirst
      rw [sub_eq_zero.mp (mul_self_eq_zero.mp hzero), ih (Nat.succ.inj hlength) (by linarith)]

end Distance

section Inverse
variable {K : Type} [CommRing K] [LinearOrder K] {book : CompleteBook K}

structure Names (book : CompleteBook K) (v : List K) (q : PQVec) : Prop where
  length : (pqvecToArray q).length = book.splits
  nearest : ∀ i k, (pqvecToArray q)[i]? = some k → IsNearest book.toCodebook v i k

/-- The laws of the two functions. The rows of the codebook may come in another order
    each time. -/
structure Inverse (MAX : K) (book : CompleteBook K) : Prop where
  nearest : ∀ {codebook}, book.Stored codebook → ∀ v : List K, v.length = book.vectorDim →
    ∃ q, quantizeVector (exact MAX) (v.map some) codebook = .ok q ∧ Names book v q
  quantize_dequantize : ∀ {codebook codebook'}, book.Stored codebook → book.Stored codebook' →
    ∀ q, Valid book q → ∃ w, dequantizeVector q codebook = .ok w ∧
      quantizeVector (exact MAX) w codebook' = .ok q
  fixed : ∀ {codebook codebook'}, book.Stored codebook → book.Stored codebook' →
    ∀ v : List K, v.length = book.vectorDim →
    ∃ q w, quantizeVector (exact MAX) (v.map some) codebook = .ok q ∧
      dequantizeVector q codebook = .ok w ∧
      ((quantizeVector (exact MAX) w codebook').bind fun q => dequantizeVector q codebook') = .ok w

theorem names_codeOf {v : List K} {near : ℕ → ℕ}
    (hnear : ∀ i < book.splits, IsNearest book.toCodebook v i (near i)) :
    Names book v (book.codeOf near) ↔ book.splits < 2 ^ 16 := by
  have harray := pqvecToArray_codeOf fun i hi => (hnear i hi).1
  constructor
  · rintro ⟨hlength, -⟩
    rw [harray, List.length_map, List.length_range] at hlength
    rw [← hlength]
    exact Nat.mod_lt _ (by decide)
  · intro hcount
    rw [Nat.mod_eq_of_lt hcount] at harray
    refine ⟨by rw [harray, List.length_map, List.length_range], fun i k hk => ?_⟩
    rw [harray, List.getElem?_map] at hk
    obtain ⟨j, hj, rfl⟩ := Option.map_eq_some_iff.mp hk
    obtain ⟨hi, rfl⟩ := List.getElem?_eq_some_iff.mp hj
    rw [List.getElem_range]
    exact hnear i (by simpa using hi)

theorem count_lt_of_inverse {MAX : K} (h : Inverse MAX book) : book.splits < 2 ^ 16 := by
  have hstored : book.Stored book.rows := List.Perm.refl _
  have hlength : (List.replicate book.vectorDim (0 : K)).length = book.vectorDim :=
    List.length_replicate
  obtain ⟨q, hq, hnames⟩ := h.nearest hstored _ hlength
  obtain ⟨near, hcode, hnear⟩ := quantizeVector_nearest MAX hstored hlength
  obtain rfl := Except.ok.inj (hq.symm.trans hcode)
  exact (names_codeOf hnear).mp hnames

theorem quantizeVector_lost (MAX : K) (hcount : book.splits % 2 ^ 16 = 0)
    {codebook : List (CodebookRow K)} (h : book.Stored codebook) {v : List K}
    (hv : v.length = book.vectorDim) :
    ∃ q, quantizeVector (exact MAX) (v.map some) codebook = .ok q ∧ pqvecToArray q = [] ∧
      dequantizeVector q codebook = .ok [] ∧
      quantizeVector (exact MAX)
        [] codebook = .error (.raised "upper bound of FOR loop cannot be null") := by
  obtain ⟨near, hcode, hnear⟩ := quantizeVector_nearest MAX h hv
  have harray := pqvecToArray_codeOf fun i hi => (hnear i hi).1
  rw [hcount, List.range_zero, List.map_nil] at harray
  refine ⟨_, hcode, harray, ?_, ?_⟩
  · unfold dequantizeVector
    rw [harray]
    rfl
  · unfold quantizeVector
    dsimp only
    rw [countP_stored h, if_neg book.splits_pos.ne']
    rfl

variable [IsStrictOrderedRing K]

theorem quantizeVector_vectorOf (MAX : K) {codebook : List (CodebookRow K)}
    (h : book.Stored codebook) {near : ℕ → ℕ} (hnear : book.Choice near) :
    quantizeVector (exact MAX) ((book.vectorOf near).map some) codebook =
      .ok (book.codeOf near) := by
  obtain ⟨found, hfound, hnearest⟩ := quantizeVector_nearest MAX h (length_vectorOf hnear)
  have hsame : ∀ i < book.splits, found i = near i := by
    intro i hi
    obtain ⟨hlt, hleast⟩ := hnearest i hi
    have hle := hleast (near i) (hnear i hi)
    rw [distance, distance, part_vectorOf hnear hi, squaredDistance_self] at hle
    apply book.distinct i hi _ hlt _ (hnear i hi)
    apply eq_of_squaredDistance_le _ hle
    rw [book.length_centroid i hi _ hlt, book.length_centroid i hi _ (hnear i hi)]
  rw [hfound, CompleteBook.codeOf, CompleteBook.codeOf]
  congr 2
  apply List.map_congr_left
  intro i hi
  rw [hsame i (List.mem_range.mp hi)]

/-- The laws hold exactly if the number of subvectors is a `uint16`. -/
theorem inverse_iff (MAX : K) (book : CompleteBook K) : Inverse MAX book ↔
      book.splits < 2 ^ 16 := by
  constructor
  · exact count_lt_of_inverse
  · intro hcount
    refine ⟨fun hstored v hv => ?_, fun hstored hstored' q hq =>
      ?_, fun hstored hstored' v hv => ?_⟩
    · obtain ⟨near, hcode, hnear⟩ := quantizeVector_nearest MAX hstored hv
      exact ⟨_, hcode, (names_codeOf hnear).mpr hcount⟩
    · obtain ⟨near, hnear, rfl⟩ := hq.exists_choice
      exact ⟨_, dequantizeVector_codeOf hstored hnear hcount,
        quantizeVector_vectorOf MAX hstored' hnear⟩
    · obtain ⟨near, hcode, hnearest⟩ := quantizeVector_nearest MAX hstored hv
      have hnear : book.Choice near := fun i hi => (hnearest i hi).1
      refine ⟨_, _, hcode, dequantizeVector_codeOf hstored hnear hcount, ?_⟩
      rw [quantizeVector_vectorOf MAX hstored' hnear]
      exact dequantizeVector_codeOf hstored' hnear hcount

end Inverse

def stairs : CompleteBook ℤ where
  splits := 2
  subvectorDim := 1
  clusters i := i + 1
  centroid _ k := [(k : ℤ)]
  splits_pos := Nat.two_pos
  dim_pos := Nat.one_pos
  clusters_pos i _ := Nat.succ_pos i
  clusters_le _ hi := Nat.le_trans hi (Nat.le_add_left 2 254)
  length_centroid _ _ _ _ := rfl
  distinct _ _ _ _ _ _ h := Int.ofNat_inj.mp (List.singleton_inj.mp h)

theorem stairs_inverse : Inverse maxFloat stairs := (inverse_iff maxFloat stairs).mpr (by decide)

def zeros (n : ℕ) (hn : 0 < n) : CompleteBook ℤ where
  splits := n
  subvectorDim := 1
  clusters _ := 1
  centroid _ _ := [0]
  splits_pos := hn
  dim_pos := Nat.one_pos
  clusters_pos _ _ := Nat.one_pos
  clusters_le _ _ := Nat.le_add_left 1 255
  length_centroid _ _ _ _ := rfl
  distinct _ _ _ hj _ hk _ := (Nat.lt_one_iff.mp hj).trans (Nat.lt_one_iff.mp hk).symm

theorem zeros_lost :
    (∃ q, quantizeVector (exact maxFloat) ((List.replicate 65536 0).map some)
          (zeros 65536 (Nat.succ_pos 65535)).rows = .ok q ∧
        pqvecToArray q = [] ∧ dequantizeVector q (zeros 65536 (Nat.succ_pos 65535)).rows = .ok [] ∧
        quantizeVector (exact maxFloat) [] (zeros 65536 (Nat.succ_pos 65535)).rows =
          .error (.raised "upper bound of FOR loop cannot be null")) ∧
      ¬Inverse maxFloat (zeros 65536 (Nat.succ_pos 65535)) := by
  have hdim : (List.replicate 65536 (0 : ℤ)).length =
      (zeros 65536 (Nat.succ_pos 65535)).vectorDim := by
    rw [List.length_replicate]
    exact (Nat.mul_one _).symm
  refine ⟨quantizeVector_lost maxFloat (Nat.mod_self _) (List.Perm.refl _) hdim, fun h => ?_⟩
  exact absurd (count_lt_of_inverse h) (lt_irrefl _)

end Lantern.CodebookInverse
