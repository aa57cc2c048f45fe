import Lantern.QuantizeTable

set_option autoImplicit false

/-!
# The rows that a codebook is trained with

With a dataset limit the codebook is trained with a window of that many ids behind a
random offset, which is drawn by the process that trains, or once for all tasks of a
batch job. The connections then fetch ranges of ids, of which only the one of the last
core ends with the window.
-/
namespace Lantern.TrainingWindow
open Fallible RangeTiling ProductQuantization QuantizeTable

/-- Who trains: one process for all subvectors, or a batch job with a task for each
    subvector, of which so many run at a time. -/
inductive Driver where
  | process
  | batch (parallelTaskCount : ℕ)
  deriving DecidableEq, Repr

/-- The part of `quantize_table_local` before the codebook. A task is given the offset. -/
def localWindow (given : Option ℕ) (clusters limit totalRowCount drawn : ℕ) :
    Except Failure (ℕ × ℕ) :=
  if 0 < limit ∧ limit < clusters then
    .error (.bail "--dataset-limit should be greater than or equal to cluster count")
  else if totalRowCount < clusters then
    .error (.bail s!"--clusters ({clusters}) should be smaller than dataset size ({totalRowCount})")
  else
    let startOffset : Except Failure ℕ :=
      match given with
      | some start => .ok start
      | none => startOffsetId limit totalRowCount drawn
    startOffset.map fun start => (start, windowSize limit totalRowCount)

/-- `quantize_table_on_gcp` draws the offset before anything compares the number of rows
    with that of the clusters. -/
def batchStart (clusters limit totalRowCount drawn : ℕ) : Except Failure ℕ :=
  if 0 < limit ∧ limit < clusters then
    .error (.bail "--dataset-limit should be greater than or equal to cluster count")
  else startOffsetId limit totalRowCount drawn

def trainingWindow (driver : Driver) (clusters limit totalRowCount drawn : ℕ) :
    Except Failure (ℕ × ℕ) :=
  match driver with
  | .process => localWindow none clusters limit totalRowCount drawn
  | .batch _ => (batchStart clusters limit totalRowCount drawn).bind fun start =>
      localWindow (some start) clusters limit totalRowCount drawn

/-- A task takes its share of the connections without counting the active ones. -/
def codebookConnections (driver : Driver) (m : Machine) : Except Failure ℕ :=
  match driver with
  | .process => .ok (numConnections m)
  | .batch parallelTaskCount =>
    (checkedSub m.maxConnections 2).bind fun pool =>
      (checkedDiv pool parallelTaskCount).map fun share => max (min m.numCores share) 1

def codebookRanges (m : Machine) (n start count : ℕ) : List IdRange :=
  connectionRanges m.numCores n start ((count + n - 1) / n) (start + count + 1)

def trainingRanges (driver : Driver) (m : Machine) (clusters limit totalRowCount drawn : ℕ) :
    Except Failure ((ℕ × ℕ) × List IdRange) :=
  (trainingWindow driver clusters limit totalRowCount drawn).bind fun window =>
    (codebookConnections driver m).map fun n => (window, codebookRanges m n window.1 window.2)

def Connects (driver : Driver) (m : Machine) : Prop :=
  ∀ parallelTaskCount, driver = .batch parallelTaskCount →
    2 ≤ m.maxConnections ∧ 0 < parallelTaskCount

def connectionCount (driver : Driver) (m : Machine) : ℕ :=
  match driver with
  | .process => numConnections m
  | .batch parallelTaskCount => max (min m.numCores ((m.maxConnections - 2) / parallelTaskCount)) 1

theorem codebookConnections_of_connects {driver : Driver} {m : Machine} (h : Connects driver m) :
    codebookConnections driver m = .ok (connectionCount driver m) := by
  cases driver with
  | process => rfl
  | batch parallelTaskCount =>
    obtain ⟨hmax, htasks⟩ := h parallelTaskCount rfl
    rw [codebookConnections, checkedSub_eq_ok.mpr ⟨hmax, rfl⟩, Except.bind,
      checkedDiv_eq_ok.mpr ⟨htasks, rfl⟩]
    rfl

theorem codebookConnections_panics {driver : Driver} {m : Machine} (h : ¬ Connects driver m) :
    ∃ message, codebookConnections driver m = .error (.panicked message) := by
  cases driver with
  | process => exact absurd (fun _ h => (by cases h)) h
  | batch parallelTaskCount =>
    unfold codebookConnections checkedSub
    split_ifs with hmax
    · exact ⟨_, rfl⟩
    · dsimp only [Except.bind, checkedDiv]
      split_ifs with htasks
      · exact ⟨_, rfl⟩
      · refine absurd (fun p hp => ?_) h
        cases hp
        exact ⟨Nat.le_of_not_lt hmax, Nat.pos_of_ne_zero htasks⟩

def poolOf (driver : Driver) (m : Machine) : Machine :=
  match driver with
  | .process => m
  | .batch parallelTaskCount =>
    { m with maxConnections := (m.maxConnections - 2) / parallelTaskCount, activeConnections := 0 }

theorem numConnections_poolOf (driver : Driver) (m : Machine) :
    numConnections (poolOf driver m) = connectionCount driver m := by
  cases driver with
  | process => rfl
  | batch parallelTaskCount =>
    simp only [numConnections, poolOf, connectionCount, Nat.not_lt_zero, if_false, Nat.sub_zero]

theorem numCores_poolOf (driver : Driver) (m : Machine) :
    (poolOf driver m).numCores = m.numCores := by
  cases driver <;> rfl

theorem codebookRanges_eq (driver : Driver) (m : Machine) (start count : ℕ) :
    codebookRanges m (connectionCount driver m) start count =
      fetchRanges (poolOf driver m) start count := by
  unfold codebookRanges fetchRanges chunkSize
  rw [numConnections_poolOf, numCores_poolOf]

theorem hits_fetchRanges (m : Machine) (offset count id : ℕ) :
    hits (fetchRanges m offset count) id =
      if offset ≤ id ∧ id < fetchEnd m offset count then 1 else 0 := by
  unfold fetchRanges fetchEnd
  by_cases hall : numConnections m = m.numCores
  · obtain ⟨n, hn⟩ := Nat.exists_eq_add_of_le' (numConnections_pos m)
    have htiles :=
      connectionRanges_fewer (Nat.lt_succ_self n) offset (chunkSize m count) (offset + count + 1)
    rw [if_pos hall, ← hall, hn, Nat.add_sub_cancel, connectionRanges_all, hits, List.countP_append]
    change hits _ id + hits [_] id = _
    -- the last range is empty if the others go beyond the window
    rw [htiles.hits_eq, hits_cons]
    simp only [hits, List.countP_nil]
    generalize n * chunkSize m count = size
    split_ifs <;> omega
  · rw [if_neg hall]
    exact (connectionRanges_fewer (lt_of_le_of_ne (numConnections_le m) hall) _ _ _).hits_eq id

/-- Each id of the window is in one range, and no row above it is in any. -/
def Selects (ranges : List IdRange) (start count totalRowCount : ℕ) : Prop :=
  (∀ id, start + 1 ≤ id → id ≤ start + count → hits ranges id = 1) ∧
    ∀ id, start + count < id → id ≤ totalRowCount → hits ranges id = 0

def EndsExactly (numCores n count : ℕ) : Prop :=
  let chunkSize := (count + n - 1) / n
  if n = numCores then (n - 1) * chunkSize ≤ count + 1 else n * chunkSize = count + 1

instance (numCores n count : ℕ) : Decidable (EndsExactly numCores n count) :=
  inferInstanceAs (Decidable (ite _ _ _))

theorem fetchEnd_eq_iff (m : Machine) (offset count : ℕ) :
    fetchEnd m offset count = offset + count + 1 ↔
      EndsExactly m.numCores (numConnections m) count := by
  unfold fetchEnd EndsExactly chunkSize
  dsimp only
  split_ifs
  · omega
  · omega

theorem selects_iff (driver : Driver) (m : Machine) {start count totalRowCount : ℕ}
    (hcount : 0 < count) (habove : start + count < totalRowCount) :
    Selects (codebookRanges m (connectionCount driver m) start count) start count totalRowCount ↔
      EndsExactly m.numCores (connectionCount driver m) count := by
  rw [codebookRanges_eq, ← numConnections_poolOf driver m, ← numCores_poolOf driver m,
    ← fetchEnd_eq_iff _ start]
  unfold Selects
  simp only [hits_fetchRanges]
  constructor
  · rintro ⟨hin, hout⟩
    have hlast := hin (start + count) (by omega) le_rfl
    have hnext := hout (start + count + 1) (by omega) habove
    split_ifs at hlast hnext
    omega
  · intro hend
    rw [hend]
    exact ⟨fun id hlow hhigh => if_pos ⟨by omega, by omega⟩, fun id hlow _ => if_neg (by omega)⟩

/-- A window of the rows that the limit allows, inside the table, and ranges that select
    it; or a message to the user. -/
def Trained (limit totalRowCount : ℕ) : Except Failure ((ℕ × ℕ) × List IdRange) → Prop
  | .error (.panicked _) => False
  | .error (.bail _) => True
  | .ok ((start, count), ranges) => count = min limit totalRowCount ∧
      start + count ≤ totalRowCount ∧ Selects ranges start count totalRowCount

section Choice
variable (driver : Driver) {clusters limit totalRowCount : ℕ} (drawn : ℕ)

theorem trainingWindow_unlimited (totalRowCount : ℕ) :
    trainingWindow driver 0 0 totalRowCount drawn = .ok (0, totalRowCount) := by
  cases driver <;> rfl

theorem trainingWindow_below (hclusters : clusters ≤ limit) (hlimit : 0 < limit)
    (h : limit < totalRowCount) :
    trainingWindow driver clusters limit totalRowCount drawn =
      .ok (drawn % (totalRowCount - limit), limit) := by
  have hstart :
      startOffsetId limit totalRowCount drawn = .ok (drawn % (totalRowCount - limit)) := by
    simp only [startOffsetId, if_pos hlimit, if_neg h.not_gt, if_neg (Nat.sub_ne_zero_of_lt h)]
  have hsize : windowSize limit totalRowCount = limit := if_pos ⟨hlimit, h.le⟩
  have hbail : ¬(0 < limit ∧ limit < clusters) := fun h => absurd hclusters h.2.not_ge
  have hrows : ¬totalRowCount < clusters := by omega
  cases driver <;>
    simp only [trainingWindow, localWindow, batchStart, if_neg hbail, if_neg hrows, hstart, hsize,
      Except.map, Except.bind]

theorem trainingWindow_above (hclusters : clusters ≤ limit) (hlimit : 0 < limit)
    (h : totalRowCount ≤ limit) :
    trainingWindow driver clusters limit totalRowCount drawn =
      if driver = .process ∧ totalRowCount < clusters then
        .error (.bail
          s!"--clusters ({clusters}) should be smaller than dataset size ({totalRowCount})")
      else .error (.panicked "cannot sample empty range") := by
  have hempty : (if totalRowCount < limit then 0 else totalRowCount - limit) = 0 := by
    split_ifs
    · rfl
    · omega
  have hstart :
      startOffsetId limit totalRowCount drawn = .error (.panicked "cannot sample empty range") := by
    simp only [startOffsetId, if_pos hlimit, hempty, if_true]
  have hbail : ¬(0 < limit ∧ limit < clusters) := fun h => absurd hclusters h.2.not_ge
  cases driver with
  | process =>
    simp only [trainingWindow, localWindow, if_neg hbail, hstart, Except.map, true_and]
  | batch _ =>
    simp only [trainingWindow, batchStart, if_neg hbail, hstart, Except.bind, reduceCtorEq,
      false_and, if_false]

end Choice

section Ranges
variable {driver : Driver} {m : Machine} {clusters limit totalRowCount drawn : ℕ}

theorem trainingRanges_connected {window : ℕ × ℕ} (hconnects : Connects driver m)
    (h : trainingWindow driver clusters limit totalRowCount drawn = .ok window) :
    trainingRanges driver m clusters limit totalRowCount drawn =
      .ok (window, codebookRanges m (connectionCount driver m) window.1 window.2) := by
  rw [trainingRanges, h, Except.bind, codebookConnections_of_connects hconnects]
  rfl

theorem not_trained_unconnected {window : ℕ × ℕ} (hconnects : ¬ Connects driver m)
    (h : trainingWindow driver clusters limit totalRowCount drawn = .ok window) :
    ¬ Trained limit totalRowCount (trainingRanges driver m clusters limit totalRowCount drawn) := by
  obtain ⟨message, hpanics⟩ := codebookConnections_panics hconnects
  rw [trainingRanges, h, Except.bind, hpanics]
  exact id

end Ranges

/-- The training is right exactly if the process refuses, or the connections can be
    counted and either there is nothing to train with or the limit is below the number of
    rows and the ranges end with the window. -/
theorem trained_iff (driver : Driver) {clusters limit : ℕ} (hclusters : clusters ≤ limit)
    (totalRowCount drawn : ℕ) (m : Machine) :
    Trained limit totalRowCount (trainingRanges driver m clusters limit totalRowCount drawn) ↔
      driver = .process ∧ totalRowCount < clusters ∨
        Connects driver m ∧ (limit = 0 ∧ totalRowCount = 0 ∨
          0 < limit ∧ limit < totalRowCount ∧
            EndsExactly m.numCores (connectionCount driver m) limit) := by
  rcases Nat.lt_or_ge limit totalRowCount with hlt | hge
  · have hrows : ¬(driver = .process ∧ totalRowCount < clusters) := by omega
    rcases Nat.eq_zero_or_pos limit with rfl | hpos
    · -- the window is the whole table, and the limit allows no row of it
      obtain rfl : clusters = 0 := by omega
      have hwindow := trainingWindow_unlimited driver drawn totalRowCount
      refine iff_of_false ?_ (by omega)
      by_cases hconnects : Connects driver m
      · rw [trainingRanges_connected hconnects hwindow]
        rintro ⟨hcount, -⟩
        omega
      · exact not_trained_unconnected hconnects hwindow
    · have hwindow := trainingWindow_below driver drawn hclusters hpos hlt
      have hstart := Nat.mod_lt drawn (Nat.sub_pos_of_lt hlt)
      have habove : drawn % (totalRowCount - limit) + limit < totalRowCount := by omega
      by_cases hconnects : Connects driver m
      · rw [trainingRanges_connected hconnects hwindow]
        simp only [Trained, selects_iff driver m hpos habove, Nat.min_eq_left hlt.le, habove.le,
          true_and, hconnects, hpos, hlt, hpos.ne', false_and, false_or]
        exact (or_iff_right hrows).symm
      · refine iff_of_false (not_trained_unconnected hconnects hwindow) ?_
        rintro (h | h)
        · exact hrows h
        · exact hconnects h.1
  · rcases Nat.eq_zero_or_pos limit with rfl | hpos
    · obtain rfl : clusters = 0 := by omega
      obtain rfl : totalRowCount = 0 := by omega
      have hwindow := trainingWindow_unlimited driver drawn 0
      by_cases hconnects : Connects driver m
      · rw [trainingRanges_connected hconnects hwindow]
        refine iff_of_true ?_ (Or.inr ⟨hconnects, Or.inl ⟨rfl, rfl⟩⟩)
        exact ⟨rfl, le_rfl, fun id _ _ => by omega, fun id _ _ => by omega⟩
      · refine iff_of_false (not_trained_unconnected hconnects hwindow) ?_
        rintro (h | h)
        · exact absurd h.2 (Nat.not_lt_zero 0)
        · exact hconnects h.1
    · rw [trainingRanges, trainingWindow_above driver drawn hclusters hpos hge]
      split_ifs with h
      · exact iff_of_true trivial (Or.inl h)
      · refine iff_of_false id ?_
        rintro (h' | ⟨-, h' | h'⟩)
        · exact h h'
        · omega
        · omega

def twoOnTwo : Machine := ⟨2, Nat.two_pos, 8, 0⟩

theorem ten_of_hundred :
    4 ≤ 10 ∧ Trained 10 100 (trainingRanges (.batch 3) twoOnTwo 4 10 100 7) := by
  refine ⟨by decide, (trained_iff (.batch 3) (by decide) 100 7 twoOnTwo).mpr (Or.inr ⟨?_, ?_⟩)⟩
  · intro p hp
    cases hp
    decide
  · exact Or.inr ⟨by decide, by decide, by decide⟩

def fiveOnFive : Machine := ⟨5, Nat.succ_pos 4, 8, 0⟩

def twoOnFour : Machine := ⟨4, Nat.succ_pos 3, 8, 6⟩

/-- A limit of all rows panics, also in a batch job; five connections fetch a row above
    the window; two connections on four cores leave out its last row; a batch job with no
    parallel tasks divides by zero. -/
theorem windows_fail :
    trainingRanges .process twoOnTwo 4 5 5 7 = .error (.panicked "cannot sample empty range") ∧
      trainingRanges (.batch 1) twoOnTwo 4 5 5 7 = .error (.panicked "cannot sample empty range") ∧
      trainingWindow .process 4 6 20 7 = .ok (7, 6) ∧
      hits (codebookRanges fiveOnFive (numConnections fiveOnFive) 7 6) 14 = 1 ∧
      hits (codebookRanges twoOnFour (numConnections twoOnFour) 7 6) 13 = 0 ∧
      trainingRanges (.batch 0) twoOnTwo 4 6 20 7 = .error (.panicked "attempt to divide by zero") ∧
      ¬Trained 5 5 (trainingRanges .process twoOnTwo 4 5 5 7) ∧
      ¬Trained 6 20 (trainingRanges .process fiveOnFive 4 6 20 7) ∧
      ¬Trained 6 20 (trainingRanges .process twoOnFour 4 6 20 7) ∧
      ¬Trained 6 20 (trainingRanges (.batch 0) twoOnTwo 4 6 20 7) := by
  have hfive : hits (codebookRanges fiveOnFive (numConnections fiveOnFive) 7 6) 14 = 1 := by decide
  have htwo : hits (codebookRanges twoOnFour (numConnections twoOnFour) 7 6) 13 = 0 := by decide
  refine ⟨rfl, rfl, rfl, hfive, htwo, rfl, fun h => h, fun h => ?_, fun h => ?_, fun h => h⟩
  · have habove := h.2.2.2 14 (by decide) (by decide)
    exact absurd (hfive.symm.trans habove) (by decide)
  · have hlast := h.2.2.1 13 (by decide) (by decide)
    exact absurd (htwo.symm.trans hlast) (by decide)

end Lantern.TrainingWindow
