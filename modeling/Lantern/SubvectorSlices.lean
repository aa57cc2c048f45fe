import Lantern.QuantizeTable
import Lantern.ResultLists

set_option autoImplicit false

/-!
# Where a vector is cut

The codebook is trained for all subvectors in one run, or for one of them in each task
of a batch job, and vectors are quantised subvector by subvector. Each of the three
computes the slices of a vector on its own, and none of them gives the last slice what
the division leaves.
-/
namespace Lantern.SubvectorSlices
open Fallible ProductQuantization

variable {L : Type}

structure Split where
  vectorDim : ℕ
  splits : ℕ
  splits_pos : 1 ≤ splits
  splits_le : splits ≤ vectorDim

def Split.subvectorDim (s : Split) : ℕ := s.vectorDim / s.splits

def subvectorBounds (s : Split) : Option ℕ → Except Failure (ℕ × ℕ)
  | none => .ok (0, s.vectorDim)
  | some subvectorId =>
    if s.splits ≤ subvectorId then
      .error (.bail s!"--subvector-id {subvectorId} should be smaller than --splits {s.splits}")
    else
      .ok (subvectorId * s.subvectorDim,
        if subvectorId = s.splits - 1 then s.vectorDim
          else subvectorId * s.subvectorDim + s.subvectorDim)

/-- `column[start_idx + 1:end_idx + 1]`, which counts from one and includes its end. -/
def fetchColumn (bounds : ℕ × ℕ) (v : List (F32 L)) : List (F32 L) :=
  (v.take (bounds.2 + 1)).drop bounds.1

def subvectorRange (s : Split) (bounds : ℕ × ℕ) : List (ℕ × ℕ) :=
  (List.range (bounds.2 / s.subvectorDim - bounds.1 / s.subvectorDim)).map fun i =>
    (i, bounds.1 / s.subvectorDim + i)

def trainingSlice (s : Split) (fetched : List (F32 L)) (p : ℕ × ℕ) :
    Except Failure (ℕ × List (F32 L)) :=
  (slice fetched (p.1 * s.subvectorDim) (p.1 * s.subvectorDim + s.subvectorDim)).map
    fun subvector => (p.2, subvector)

def trainingSlices (s : Split) (subvectorId : Option ℕ) (v : List (F32 L)) :
    Except Failure (List (ℕ × List (F32 L))) :=
  (subvectorBounds s subvectorId).bind fun bounds =>
    (subvectorRange s bounds).mapM (trainingSlice s (fetchColumn bounds v))

def quantizingSlice (s : Split) (v : List (F32 L)) (i : ℕ) : Except Failure (List (F32 L)) :=
  slice v (i * s.subvectorDim) (min (i * s.subvectorDim + s.subvectorDim) s.vectorDim)

def quantizingSlices (s : Split) (v : List (F32 L)) : Except Failure (List (List (F32 L))) :=
  (List.range s.splits).mapM (quantizingSlice s v)

theorem quantizeSplit_slice [LinearOrder L] (ar : Arithmetic L) (s : Split)
    (codebooks : Codebooks L) (x : DatasetItem L) (i : ℕ) :
    quantizeSplit ar s.vectorDim s.subvectorDim codebooks x i =
      (splitCentroids codebooks i).bind fun centroids =>
        (quantizingSlice s x.vec i).map fun subvector =>
          getClosestCentroid ar centroids subvector := rfl

theorem fetchDataset_slice {env : QuantizeTable.Environment L}
    {offset totalRowCount : ℕ} (s : Split) {x : DatasetItem L}
    (hx : x ∈ QuantizeTable.fetchDataset env offset totalRowCount s.vectorDim) (i : ℕ) :
    ∃ v, env.table.vectors x.id = some v ∧
      (slice x.vec (i * s.subvectorDim) (i * s.subvectorDim + s.subvectorDim)).map
        (fun subvector => (i, subvector)) =
        trainingSlice s (fetchColumn (0, s.vectorDim) v) (i, i) := by
  obtain ⟨-, -, v, hv, hvec⟩ := QuantizeTable.mem_fetchDataset.mp hx
  refine ⟨v, hv, ?_⟩
  rw [← hvec]
  rfl

section Slices
variable (s : Split)

theorem Split.subvectorDim_pos : 0 < s.subvectorDim := Nat.div_pos s.splits_le s.splits_pos

theorem Split.mul_subvectorDim_le : s.splits * s.subvectorDim ≤ s.vectorDim := Nat.mul_div_le _ _

variable {s} {v : List (F32 L)}

theorem mapM_trainingSlice {m stop : ℕ} (hstop : stop ≤ v.length) :
    (subvectorRange s (m * s.subvectorDim, stop)).mapM
        (trainingSlice s (fetchColumn (m * s.subvectorDim, stop) v)) =
      .ok ((List.range (stop / s.subvectorDim - m)).map fun i =>
        (m + i, subvectorOf s.subvectorDim v (m + i))) := by
  have hdiv : m * s.subvectorDim / s.subvectorDim = m := Nat.mul_div_cancel m s.subvectorDim_pos
  have hrange : subvectorRange s (m * s.subvectorDim, stop) =
      (List.range (stop / s.subvectorDim - m)).map fun i => (i, m + i) := by
    rw [subvectorRange, hdiv]
  have hmap : ((List.range (stop / s.subvectorDim - m)).map fun i =>
      (m + i, subvectorOf s.subvectorDim v (m + i))) =
      (subvectorRange s (m * s.subvectorDim, stop)).map fun p =>
      (p.2, subvectorOf s.subvectorDim v p.2) := by
    rw [hrange, List.map_map]
    rfl
  rw [hmap, mapM_map_ok, hrange]
  intro p hp
  obtain ⟨i, hi, rfl⟩ := List.mem_map.mp hp
  have hend : (m + i) * s.subvectorDim + s.subvectorDim ≤ stop := by
    rw [← Nat.succ_mul, ← Nat.le_div_iff_mul_le s.subvectorDim_pos]
    have := List.mem_range.mp hi
    omega
  have hslice : slice (fetchColumn (m * s.subvectorDim, stop) v) (i * s.subvectorDim)
      (i * s.subvectorDim + s.subvectorDim) = .ok (subvectorOf s.subvectorDim v (m + i)) := by
    rw [Nat.add_mul] at hend
    rw [slice_subvector, fetchColumn]
    constructor
    · rw [List.length_drop, List.length_take]
      omega
    · rw [← subvectorOf_take (n := stop + 1) (by rw [Nat.add_mul]; omega), subvectorOf, subvectorOf,
        List.drop_drop, Nat.add_mul]
  rw [trainingSlice, hslice]
  rfl

theorem trainingSlices_none (hv : v.length = s.vectorDim) :
    trainingSlices s none v =
      .ok ((List.range (s.vectorDim / s.subvectorDim)).map fun i =>
        (i, subvectorOf s.subvectorDim v i)) := by
  have h := @mapM_trainingSlice L s v 0 s.vectorDim hv.ge
  simp only [Nat.zero_mul, Nat.sub_zero, Nat.zero_add] at h
  exact h

theorem trainingSlices_some (hv : v.length = s.vectorDim) {id : ℕ} (hid : id < s.splits) :
    trainingSlices s (some id) v =
      .ok ((List.range (if id = s.splits - 1 then s.vectorDim / s.subvectorDim - id
        else 1)).map fun i =>
        (id + i, subvectorOf s.subvectorDim v (id + i))) := by
  rw [trainingSlices, subvectorBounds, if_neg (not_le.mpr hid)]
  split_ifs with hlast
  · exact mapM_trainingSlice hv.ge
  · have hend : id * s.subvectorDim + s.subvectorDim ≤ v.length := by
      rw [hv]
      exact split_end_le s.mul_subvectorDim_le hid
    have hone : (id * s.subvectorDim + s.subvectorDim) / s.subvectorDim - id = 1 := by
      rw [← Nat.succ_mul, Nat.mul_div_cancel _ s.subvectorDim_pos]
      omega
    have h := @mapM_trainingSlice L s v id _ hend
    rw [hone] at h
    exact h

theorem quantizingSlices_eq (hv : v.length = s.vectorDim) :
    quantizingSlices s v = .ok ((List.range s.splits).map (subvectorOf s.subvectorDim v)) := by
  rw [quantizingSlices, mapM_map_ok]
  intro i hi
  have hend := split_end_le s.mul_subvectorDim_le (List.mem_range.mp hi)
  rw [quantizingSlice, min_eq_left hend]
  exact slice_subvector.mpr ⟨hv ▸ hend, rfl⟩

theorem flatten_subvectors (size n : ℕ) (v : List (F32 L)) :
    ((List.range n).map (subvectorOf size v)).flatten = v.take (n * size) := by
  induction n with
  | zero => simp
  | succ n ih =>
    rw [List.range_succ, List.map_append, List.flatten_append, ih, Nat.succ_mul, List.take_add]
    simp [subvectorOf]

end Slices

/-- Consecutive slices that make up the vector, of one size but for the last. -/
structure Decomposition (splits : ℕ) (v : List (F32 L)) (slices : List (List (F32 L))) : Prop where
  count : slices.length = splits
  whole : slices.flatten = v
  even : ∀ i < splits - 1, ∀ subvector, slices[i]? = some subvector →
    subvector.length = v.length / splits

/-- Training in one run, training in tasks and quantising take the same slices. -/
def Agree (s : Split) (v : List (F32 L)) : Prop :=
  ∃ slices, Decomposition s.splits v slices ∧
    trainingSlices s none v = .ok (slices.mapIdx fun i subvector => (i, subvector)) ∧
    (List.range s.splits).mapM (fun id => trainingSlices s (some id) v) =
      .ok (slices.mapIdx fun i subvector => [(i, subvector)]) ∧
    quantizingSlices s v = .ok slices

def Returns (s : Split) (v : List (F32 L)) : Prop :=
  (∃ r, trainingSlices s none v = .ok r) ∧
    (∀ id < s.splits, ∃ r, trainingSlices s (some id) v = .ok r) ∧
    ∃ r, quantizingSlices s v = .ok r

theorem returns (s : Split) {v : List (F32 L)} (hv : v.length = s.vectorDim) : Returns s v :=
  ⟨⟨_, trainingSlices_none hv⟩, fun _ hid => ⟨_, trainingSlices_some hv hid⟩,
    ⟨_, quantizingSlices_eq hv⟩⟩

theorem Agree.dvd {s : Split} {v : List (F32 L)} (hv : v.length = s.vectorDim) (h : Agree s v) :
    s.splits ∣ s.vectorDim := by
  obtain ⟨slices, hdecomposition, -, -, hquantizing⟩ := h
  have hwhole := hdecomposition.whole
  rw [← Except.ok.inj ((quantizingSlices_eq hv).symm.trans hquantizing),
    flatten_subvectors] at hwhole
  have hlength := congrArg List.length hwhole
  rw [List.length_take, hv, min_eq_left s.mul_subvectorDim_le] at hlength
  exact ⟨s.subvectorDim, hlength.symm⟩

theorem mapIdx_range {α β : Type} (f : ℕ → α → β) (g : ℕ → α) (n : ℕ) :
    ((List.range n).map g).mapIdx f = (List.range n).map fun i => f i (g i) := by
  apply List.ext_getElem?
  intro i
  by_cases hi : i < n
  · simp [hi]
  · simp [hi]

theorem agree_of_dvd {s : Split} (hdvd : s.splits ∣ s.vectorDim) {v : List (F32 L)}
    (hv : v.length = s.vectorDim) :
    Agree s v := by
  have hmul : s.splits * s.subvectorDim = s.vectorDim := Nat.mul_div_cancel' hdvd
  have hdiv : s.vectorDim / s.subvectorDim = s.splits := by
    rw [← hmul, Nat.mul_div_cancel _ s.subvectorDim_pos]
  refine ⟨(List.range s.splits).map (subvectorOf s.subvectorDim v), ⟨by simp, ?_, ?_⟩, ?_, ?_,
    quantizingSlices_eq hv⟩
  · rw [flatten_subvectors, hmul, ← hv, List.take_length]
  · intro i hi subvector hget
    rw [List.getElem?_map, List.getElem?_range (by omega)] at hget
    cases hget
    have hend := split_end_le s.mul_subvectorDim_le (show i < s.splits by omega)
    rw [subvectorOf, List.length_take, List.length_drop, hv]
    exact min_eq_left (by unfold Split.subvectorDim at hend ⊢; omega)
  · rw [trainingSlices_none hv, hdiv, mapIdx_range]
  · rw [mapIdx_range, mapM_map_ok]
    intro id hid
    have hone : (if id = s.splits - 1 then s.vectorDim / s.subvectorDim - id else 1) = 1 := by
      rw [hdiv]
      split_ifs with hlast
      · have := s.splits_pos
        omega
      · rfl
    rw [trainingSlices_some hv (List.mem_range.mp hid), hone]
    rfl

/-- The three take one decomposition of every vector exactly if the division leaves
    nothing. Whatever it leaves, no slice is out of range. -/
theorem agree_iff_dvd (s : Split) :
    ((∀ v : List (F32 L), v.length = s.vectorDim → Agree s v) ↔ s.splits ∣ s.vectorDim) ∧
      ∀ v : List (F32 L), v.length = s.vectorDim → Returns s v := by
  refine ⟨⟨fun h => ?_, fun h v => agree_of_dvd h⟩, fun v => returns s⟩
  exact (h (List.replicate s.vectorDim none) List.length_replicate).dvd List.length_replicate

def fiveInThree : Split := ⟨5, 3, Nat.le_add_left 1 2, Nat.le_add_right 3 2⟩

def five : List (F32 ℤ) := [some 1, some 2, some 3, some 4, some 5]

theorem fiveInThree_slices :
    trainingSlices fiveInThree none five =
      .ok [(0, [some 1]), (1, [some 2]), (2, [some 3]), (3, [some 4]), (4, [some 5])] ∧
    trainingSlices fiveInThree (some 2) five = .ok [(2, [some 3]), (3, [some 4]), (4, [some 5])] ∧
    quantizingSlices fiveInThree five = .ok [[some 1], [some 2], [some 3]] ∧
    ¬ Agree fiveInThree five := by
  refine ⟨rfl, rfl, rfl, fun h => ?_⟩
  exact absurd (Agree.dvd rfl h) (by decide)

end Lantern.SubvectorSlices
