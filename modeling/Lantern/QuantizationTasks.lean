import Lantern.ProductQuantization
import Lantern.ResultLists

set_option autoImplicit false

/-!
# The quantisation tasks of a batch job

`quantize_and_write_vectors` reads the finished codebook and quantises a part of the
table. The rows are divided twice, among the tasks of the job and, within a task,
among its connections. Arithmetic on `usize` is checked: an underflow and a division
by zero are failures.
-/
namespace Lantern.QuantizationTasks
open Fallible RangeTiling ProductQuantization

variable {L : Type}

/-- A row of the codebook table; the rows come in the order of their centroids. -/
structure CodebookRow (L : Type) where
  subvectorId : ℕ
  centroidId : ℕ
  centroid : List (F32 L)

def addCentroid (codebooks : Codebooks L) (row : CodebookRow L) : Except Failure (Codebooks L) :=
  let centroids := (codebooks.lookup row.subvectorId).getD []
  if centroids.length < row.centroidId then
    .error (.panicked
      s!"insertion index (is {row.centroidId}) should be <= len (is {centroids.length})")
  else
    .ok ((row.subvectorId, centroids.insertIdx row.centroidId row.centroid) ::
      codebooks.filter fun e => e.1 != row.subvectorId)

def readCodebook (rows : List (CodebookRow L)) (splits : ℕ) : Except Failure (Codebooks L × ℕ) :=
  match rows with
  | [] => .error (.bail "Codebook does not contain any entries")
  | first :: _ =>
    -- the cluster count is only a capacity
    (checkedDiv rows.length splits).bind fun _ =>
      (rows.foldlM addCentroid []).bind fun codebooks =>
        if codebooks.length ≠ splits then
          .error (.bail
            s!"Incomplete codebook: expected size equal to {splits}, got: {codebooks.length}")
        else .ok (codebooks, first.centroid.length)

structure Job (L : Type) where
  table : Table L
  arithmetic : Arithmetic L
  splits : ℕ
  codebookRows : List (CodebookRow L)
  codebooks : Codebooks L
  subvectorDim : ℕ
  codebook_read : readCodebook codebookRows splits = .ok (codebooks, subvectorDim)
  codebook_complete : ∀ i < splits, (codebooks.lookup i).isSome
  vectors_fit : ∀ id v, table.vectors id = some v → splits * subvectorDim ≤ v.length

structure TaskArgs where
  totalTaskCount : Option ℕ
  parallelTaskCount : Option ℕ
  quantizationTaskId : Option ℕ

def taskStart (rowCount taskCount taskId : ℕ) : ℕ := rowCount / taskCount * taskId

def taskEnd (rowCount taskCount taskId : ℕ) : ℕ :=
  if taskId = taskCount - 1 then rowCount + 1 else taskStart rowCount taskCount taskId +
    rowCount / taskCount

def limits (rowCount : ℕ) (args : TaskArgs) : Except Failure (ℕ × ℕ) :=
  match args.quantizationTaskId, args.totalTaskCount with
  | none, _ => .ok (0, rowCount)
  | some _, none =>
    .error (.bail "Please provide --total-task-count when providing --quantization-task-id")
  | some taskId, some taskCount =>
    (checkedDiv rowCount taskCount).map fun _ =>
      (taskStart rowCount taskCount taskId, taskEnd rowCount taskCount taskId)

def connectionLimit (m : Machine) (args : TaskArgs) : Except Failure ℕ :=
  match args.quantizationTaskId with
  | some _ =>
    (checkedSub m.maxConnections 2).bind fun pool =>
      checkedDiv pool (args.parallelTaskCount.getD (args.totalTaskCount.getD 0))
  | none => checkedSub m.maxConnections m.activeConnections

def numConnections (m : Machine) (limit : ℕ) : ℕ := max (min m.numCores limit) 1

def queryRanges (m : Machine) (numConnections limitStart limitEnd : ℕ) : List IdRange :=
  connectionRanges m.numCores numConnections limitStart ((limitEnd - limitStart) /
    numConnections) limitEnd

variable [LinearOrder L]

def quantizeRange (job : Job L) (codebooks : Codebooks L) (subvectorDim : ℕ) (range : IdRange) :
    Except Failure (IdRange × List (ℕ × List UInt8)) :=
  match fetchRows job.table.rowCount job.table.vectors range with
  | [] => .error (.panicked "index out of bounds: the len is 0 but the index is 0")
  | first :: rows =>
    (quantizeVectors job.arithmetic (first :: rows) first.vec.length subvectorDim job.splits
      codebooks).map
      fun codes => (range, codes)

def quantizeAndWriteVectors (job : Job L) (m : Machine) (args : TaskArgs) :
    Except Failure (List (IdRange × List (ℕ × List UInt8))) :=
  (limits job.table.rowCount args).bind fun lim =>
    (readCodebook job.codebookRows job.splits).bind fun p =>
      (checkedSub lim.2 lim.1).bind fun _ =>
        (connectionLimit m args).bind fun limit =>
          (queryRanges m (numConnections m limit) lim.1 lim.2).mapM (quantizeRange job p.1 p.2)

def HoldsRow (table : Table L) (range : IdRange) : Prop :=
  ∃ id, (1 ≤ id ∧ id ≤ table.rowCount) ∧ range.holds id = true ∧ (table.vectors id).isSome

omit [LinearOrder L] in
theorem fetchRows_ne_nil_iff {table : Table L} {range : IdRange} :
    fetchRows table.rowCount table.vectors range ≠ [] ↔ HoldsRow table range := by
  constructor
  · intro h
    obtain ⟨x, hx⟩ := List.exists_mem_of_ne_nil _ h
    obtain ⟨hid, hholds, hvec⟩ := mem_fetchRows.mp hx
    exact ⟨x.id, hid, hholds, Option.isSome_of_eq_some hvec⟩
  · rintro ⟨id, hid, hholds, hsome⟩
    obtain ⟨v, hv⟩ := Option.isSome_iff_exists.mp hsome
    exact List.ne_nil_of_mem (mem_fetchRows.mpr ⟨hid, hholds, hv⟩ : (⟨id, v⟩ : DatasetItem L) ∈ _)

theorem quantizeRange_returns_iff (job : Job L) (range : IdRange) :
    (∃ r, quantizeRange job job.codebooks job.subvectorDim range = .ok r) ↔
      HoldsRow job.table range := by
  rw [← fetchRows_ne_nil_iff]
  unfold quantizeRange
  have hlong : ∀ x ∈ fetchRows job.table.rowCount job.table.vectors range,
      job.splits * job.subvectorDim ≤ x.vec.length := by
    intro x hx
    exact job.vectors_fit x.id x.vec (mem_fetchRows.mp hx).2.2
  generalize fetchRows job.table.rowCount job.table.vectors range = rows at hlong
  match rows with
  | [] => exact iff_of_false (fun h => nomatch h.choose_spec) fun h => h rfl
  | first :: rows =>
    refine iff_of_true ?_ (List.cons_ne_nil first rows)
    have hreturns :
        ∃ codes, quantizeVectors job.arithmetic (first :: rows) first.vec.length job.subvectorDim
        job.splits job.codebooks = .ok codes := by
      apply mapM_returns
      intro x hx
      exact quantizeVector_returns job.codebook_complete
        (hlong first List.mem_cons_self) (hlong x hx)
    obtain ⟨codes, hcodes⟩ := hreturns
    exact ⟨(range, codes), map_eq_ok.mpr ⟨codes, hcodes, rfl⟩⟩

variable {ranges : List IdRange} {job : Job L}

theorem quantizeRange_fst {codebooks : Codebooks L} {subvectorDim : ℕ} {range : IdRange}
    {r : IdRange × List (ℕ × List UInt8)}
    (h : quantizeRange job codebooks subvectorDim range = .ok r) :
    r.1 = range := by
  unfold quantizeRange at h
  split at h
  · cases h
  · obtain ⟨codes, -, rfl⟩ := map_eq_ok.mp h
    rfl

theorem quantizeRanges_iff (job : Job L) (ranges : List IdRange) :
    (∃ run, ranges.mapM (quantizeRange job job.codebooks job.subvectorDim) = .ok run ∧
      run.map Prod.fst = ranges) ↔
      ∀ r ∈ ranges, HoldsRow job.table r := by
  constructor
  · rintro ⟨run, hrun, -⟩ r hr
    exact (quantizeRange_returns_iff job r).mp (mapM_ok_mem hrun hr)
  · intro h
    obtain ⟨run, hrun⟩ := mapM_returns fun r hr => (quantizeRange_returns_iff job r).mpr (h r hr)
    exact ⟨run, hrun, mapM_map_back (fun _ _ => quantizeRange_fst) hrun⟩

section Ranges
variable (m : Machine) (limit : ℕ)

theorem numConnections_pos : 0 < numConnections m limit :=
  Nat.lt_of_lt_of_le Nat.one_pos (le_max_right _ _)

theorem numConnections_le : numConnections m limit ≤ m.numCores :=
  max_le (min_le_left _ _) m.cores_pos

variable {limitStart limitEnd : ℕ}

def queriedEnd (m : Machine) (limit limitStart limitEnd : ℕ) : ℕ :=
  if numConnections m limit = m.numCores then limitEnd
  else limitStart + numConnections m limit * ((limitEnd - limitStart) / numConnections m limit)

theorem tiles_queryRanges (hle : limitStart ≤ limitEnd) :
    Tiles limitStart (queriedEnd m limit limitStart limitEnd)
      (queryRanges m (numConnections m limit) limitStart limitEnd) := by
  unfold queriedEnd queryRanges
  split_ifs with hall
  · obtain ⟨n, hn⟩ : ∃ n, numConnections m limit = n + 1 :=
      Nat.exists_eq_add_of_le' (numConnections_pos m limit)
    rw [← hall, hn, connectionRanges_all]
    apply (connectionRanges_fewer (Nat.lt_succ_self n) _ _ _).append
    apply Tiles.single
    have hmul : n * ((limitEnd - limitStart) / (n + 1)) ≤ limitEnd - limitStart :=
      (Nat.mul_le_mul_right _ (Nat.le_succ n)).trans (Nat.mul_div_le _ _)
    omega
  · exact connectionRanges_fewer (lt_of_le_of_ne (numConnections_le m limit) hall) _ _ _

theorem queriedEnd_le (hle : limitStart ≤ limitEnd) :
    queriedEnd m limit limitStart limitEnd ≤ limitEnd := by
  unfold queriedEnd
  split_ifs
  · exact le_rfl
  · have := Nat.mul_div_le (limitEnd - limitStart) (numConnections m limit)
    omega

theorem queriedEnd_eq_iff (hle : limitStart ≤ limitEnd) :
    queriedEnd m limit limitStart limitEnd = limitEnd ↔
      numConnections m limit = m.numCores ∨ numConnections m limit ∣ limitEnd - limitStart := by
  unfold queriedEnd
  split_ifs with hall
  · exact iff_of_true rfl (Or.inl hall)
  · rw [or_iff_right hall, Nat.dvd_iff_div_mul_eq, Nat.mul_comm]
    omega

theorem queryRanges_ne_nil : queryRanges m (numConnections m limit) limitStart limitEnd ≠ [] := by
  obtain ⟨n, hn⟩ := Nat.exists_eq_add_of_le' (numConnections_pos m limit)
  unfold queryRanges connectionRanges
  rw [hn, List.range_succ, List.map_append]
  exact List.append_ne_nil_of_right_ne_nil _ (List.cons_ne_nil _ _)

end Ranges

def Queries (job : Job L) (m : Machine) (args : TaskArgs) (ranges : List IdRange) : Prop :=
  ∃ run, quantizeAndWriteVectors job m args = .ok run ∧ run.map Prod.fst = ranges

theorem queries_iff {m : Machine} {args : TaskArgs} :
    Queries job m args ranges ↔ ∃ lim limit, limits job.table.rowCount args = .ok lim ∧
      lim.1 ≤ lim.2 ∧
      connectionLimit m args = .ok limit ∧
        ranges = queryRanges m (numConnections m limit) lim.1 lim.2 ∧
      ∀ r ∈ ranges, HoldsRow job.table r := by
  unfold Queries quantizeAndWriteVectors
  rw [job.codebook_read]
  simp only [bind_eq_ok, checkedSub_eq_ok, Except.ok.injEq, exists_eq_left']
  constructor
  · rintro ⟨run, ⟨lim, hlim, _, ⟨hle, -⟩, limit, hlimit, hrun⟩, hfst⟩
    have hranges := mapM_map_back (fun _ _ => quantizeRange_fst) hrun
    rw [hfst] at hranges
    refine ⟨lim, limit, hlim, hle, hlimit, hranges, ?_⟩
    rw [hranges]
    exact (quantizeRanges_iff job _).mp ⟨run, hrun, hfst.trans hranges⟩
  · rintro ⟨lim, limit, hlim, hle, hlimit, rfl, hrows⟩
    obtain ⟨run, hrun, hfst⟩ := (quantizeRanges_iff job _).mpr hrows
    exact ⟨run, ⟨lim, hlim, _, ⟨hle, rfl⟩, limit, hlimit, hrun⟩, hfst⟩

theorem single_run_misses {m : Machine} {args : TaskArgs} (hargs : args.quantizationTaskId = none)
    (h : Queries job m args ranges) :
    1 ≤ job.table.rowCount ∧ hits ranges job.table.rowCount = 0 := by
  obtain ⟨lim, limit, hlim, hle, -, rfl, hrows⟩ := queries_iff.mp h
  have hlim' : lim = (0, job.table.rowCount) := by
    unfold limits at hlim
    rw [hargs] at hlim
    exact (Except.ok.inj hlim).symm
  subst hlim'
  constructor
  · obtain ⟨r, hr⟩ := List.exists_mem_of_ne_nil _ (queryRanges_ne_nil m limit)
    obtain ⟨id, hid, -⟩ := hrows r hr
    exact hid.1.trans hid.2
  · rw [(tiles_queryRanges m limit hle).hits_eq]
    have := queriedEnd_le m limit hle
    exact if_neg fun h => absurd h.2 (by dsimp only at this ⊢; omega)

structure Batch where
  totalTaskCount : ℕ
  tasks_pos : 0 < totalTaskCount
  parallelTaskCount : Option ℕ

def Batch.args (b : Batch) (taskId : ℕ) : TaskArgs :=
  ⟨some b.totalTaskCount, b.parallelTaskCount, some taskId⟩

def Batch.parallel (b : Batch) : ℕ := b.parallelTaskCount.getD b.totalTaskCount

def Batch.numConnections (b : Batch) (m : Machine) : ℕ :=
  QuantizationTasks.numConnections m ((m.maxConnections - 2) / b.parallel)

def Batch.taskRanges (b : Batch) (m : Machine) (rowCount taskId : ℕ) : List IdRange :=
  queryRanges m (b.numConnections m) (taskStart rowCount b.totalTaskCount taskId)
    (taskEnd rowCount b.totalTaskCount taskId)

def quantizeBatch (job : Job L) (m : Machine) (b : Batch) : Except Failure (List (List IdRange)) :=
  (List.range b.totalTaskCount).mapM fun taskId =>
    (quantizeAndWriteVectors job m (b.args taskId)).map fun run => run.map Prod.fst

section Tasks
variable (b : Batch) (m : Machine) (rowCount : ℕ)

def Batch.mark (b : Batch) (rowCount taskId : ℕ) : ℕ :=
  if taskId = b.totalTaskCount then rowCount + 1 else taskStart rowCount b.totalTaskCount taskId

variable {taskId : ℕ}

theorem Batch.mark_start (h : taskId < b.totalTaskCount) :
    b.mark rowCount taskId = taskStart rowCount b.totalTaskCount taskId := if_neg h.ne

theorem Batch.mark_end (h : taskId < b.totalTaskCount) :
    b.mark rowCount (taskId + 1) = taskEnd rowCount b.totalTaskCount taskId := by
  unfold mark taskEnd
  by_cases hlast : taskId = b.totalTaskCount - 1
  · rw [if_pos hlast, if_pos (by omega)]
  · rw [if_neg hlast, if_neg (by omega)]
    exact Nat.mul_succ _ _

theorem taskStart_le_taskEnd (h : taskId < b.totalTaskCount) :
    taskStart rowCount b.totalTaskCount taskId ≤ taskEnd rowCount b.totalTaskCount taskId := by
  unfold taskEnd
  split_ifs
  · have hmul : rowCount / b.totalTaskCount * taskId ≤ rowCount :=
      (Nat.mul_le_mul_left _ h.le).trans (Nat.div_mul_le_self _ _)
    exact Nat.le_succ_of_le hmul
  · exact Nat.le_add_right _ _

theorem Batch.mark_mono {i j : ℕ} (hij : i ≤ j) (hj : j ≤ b.totalTaskCount) :
    b.mark rowCount i ≤ b.mark rowCount j := by
  induction j, hij using Nat.le_induction with
  | base => exact le_rfl
  | succ j _ ih =>
    have hlt : j < b.totalTaskCount := hj
    apply (ih hlt.le).trans
    rw [b.mark_start rowCount hlt, b.mark_end rowCount hlt]
    exact taskStart_le_taskEnd b rowCount hlt

def Batch.Even (b : Batch) (m : Machine) (rowCount taskId : ℕ) : Prop :=
  b.numConnections m = m.numCores ∨ b.numConnections m ∣
    taskEnd rowCount b.totalTaskCount taskId - taskStart rowCount b.totalTaskCount taskId

def Batch.queriedEnd (b : Batch) (m : Machine) (rowCount taskId : ℕ) : ℕ :=
  QuantizationTasks.queriedEnd m ((m.maxConnections - 2) / b.parallel)
    (taskStart rowCount b.totalTaskCount taskId)
    (taskEnd rowCount b.totalTaskCount taskId)

theorem Batch.tiles_taskRanges (h : taskId < b.totalTaskCount) :
    Tiles (b.mark rowCount taskId) (b.queriedEnd m rowCount taskId)
      (b.taskRanges m rowCount taskId) := by
  rw [b.mark_start rowCount h]
  exact tiles_queryRanges m _ (taskStart_le_taskEnd b rowCount h)

theorem Batch.queriedEnd_le_mark (h : taskId < b.totalTaskCount) :
    b.queriedEnd m rowCount taskId ≤ b.mark rowCount (taskId + 1) := by
  rw [b.mark_end rowCount h]
  exact queriedEnd_le m _ (taskStart_le_taskEnd b rowCount h)

theorem Batch.queriedEnd_eq_mark_iff (h : taskId < b.totalTaskCount) :
    b.queriedEnd m rowCount taskId = b.mark rowCount (taskId + 1) ↔ b.Even m rowCount taskId := by
  rw [b.mark_end rowCount h]
  exact queriedEnd_eq_iff m _ (taskStart_le_taskEnd b rowCount h)

theorem Batch.tiles_of_even (h : taskId < b.totalTaskCount) (heven : b.Even m rowCount taskId) :
    Tiles (b.mark rowCount taskId) (b.mark rowCount (taskId + 1))
      (b.taskRanges m rowCount taskId) := by
  rw [← (b.queriedEnd_eq_mark_iff m rowCount h).mpr heven]
  exact b.tiles_taskRanges m rowCount h

theorem Batch.misses_of_not_even (h : taskId < b.totalTaskCount)
    (heven : ¬ b.Even m rowCount taskId) {other : ℕ} (hother : other < b.totalTaskCount)
    {r : IdRange} (hr : r ∈ b.taskRanges m rowCount other) :
    r.holds (b.mark rowCount (taskId + 1) - 1) = false := by
  have hshort : b.queriedEnd m rowCount taskId < b.mark rowCount (taskId + 1) :=
    lt_of_le_of_ne (b.queriedEnd_le_mark m rowCount h) fun heq =>
      heven ((b.queriedEnd_eq_mark_iff m rowCount h).mp heq)
  have hstart := (b.tiles_taskRanges m rowCount h).le
  have hend := b.queriedEnd_le_mark m rowCount hother
  by_contra hholds
  have hin := ((b.tiles_taskRanges m rowCount hother).exists_iff _).mp
    ⟨r, hr, Bool.eq_true_of_not_eq_false hholds⟩
  -- the id is in the part of its own task only
  rcases Nat.lt_trichotomy other taskId with hlt | heq | hgt
  · have : b.mark rowCount (other + 1) ≤ b.mark rowCount taskId := b.mark_mono rowCount hlt h.le
    omega
  · subst heq
    omega
  · have : b.mark rowCount (taskId + 1) ≤ b.mark rowCount other :=
      b.mark_mono rowCount hgt hother.le
    omega

end Tasks

theorem queries_task_iff {m : Machine} {b : Batch} {taskId : ℕ} (h : taskId < b.totalTaskCount) :
    Queries job m (b.args taskId) ranges ↔ (2 ≤ m.maxConnections ∧ 0 < b.parallel) ∧
      ranges = b.taskRanges m job.table.rowCount taskId ∧ ∀ r ∈ ranges, HoldsRow job.table r := by
  have hlim : limits job.table.rowCount (b.args taskId) =
      .ok (taskStart job.table.rowCount b.totalTaskCount taskId,
      taskEnd job.table.rowCount b.totalTaskCount taskId) := by
    exact map_eq_ok.mpr ⟨_, checkedDiv_eq_ok.mpr ⟨b.tasks_pos, rfl⟩, rfl⟩
  have hlimit : ∀ limit, connectionLimit m (b.args taskId) = .ok limit ↔
      (2 ≤ m.maxConnections ∧ 0 < b.parallel) ∧ (m.maxConnections - 2) / b.parallel = limit := by
    intro limit
    refine bind_eq_ok.trans ?_
    simp only [checkedSub_eq_ok, checkedDiv_eq_ok, and_assoc, exists_and_left, exists_eq_left']
    exact Iff.rfl
  rw [queries_iff, hlim]
  simp only [Except.ok.injEq, exists_and_left, exists_eq_left', hlimit]
  constructor
  · rintro ⟨-, limit, ⟨hpool, rfl⟩, hranges, hrows⟩
    exact ⟨hpool, hranges, hrows⟩
  · rintro ⟨hpool, hranges, hrows⟩
    exact ⟨taskStart_le_taskEnd b _ h, _, ⟨hpool, rfl⟩, hranges, hrows⟩

theorem quantizeBatch_eq_ok {m : Machine} {b : Batch} {groups : List (List IdRange)} :
    quantizeBatch job m b = .ok groups ↔ (2 ≤ m.maxConnections ∧ 0 < b.parallel) ∧
      (∀ taskId < b.totalTaskCount, ∀ r ∈ b.taskRanges m job.table.rowCount taskId,
        HoldsRow job.table r) ∧
      groups = (List.range b.totalTaskCount).map (b.taskRanges m job.table.rowCount) := by
  have htask :
      ∀ taskId ranges, ((quantizeAndWriteVectors job m (b.args taskId)).map fun run =>
      run.map Prod.fst) =
      .ok ranges ↔ Queries job m (b.args taskId) ranges := fun _ _ => map_eq_ok
  unfold quantizeBatch
  constructor
  · intro h
    have hall : ∀ taskId < b.totalTaskCount, (2 ≤ m.maxConnections ∧ 0 < b.parallel) ∧
        Queries job m (b.args taskId) (b.taskRanges m job.table.rowCount taskId) ∧
        ∀ r ∈ b.taskRanges m job.table.rowCount taskId, HoldsRow job.table r := by
      intro taskId hlt
      obtain ⟨ranges, hranges⟩ := mapM_ok_mem h (List.mem_range.mpr hlt)
      have hqueries := (htask taskId ranges).mp hranges
      obtain ⟨hpool, rfl, hrows⟩ := (queries_task_iff hlt).mp hqueries
      exact ⟨hpool, hqueries, hrows⟩
    refine ⟨(hall 0 b.tasks_pos).1, fun taskId hlt => (hall taskId hlt).2.2, ?_⟩
    have hmap := mapM_map_ok.mpr fun taskId hmem =>
      (htask taskId (b.taskRanges m job.table.rowCount taskId)).mpr
        (hall taskId (List.mem_range.mp hmem)).2.1
    exact Except.ok.inj (h.symm.trans hmap)
  · rintro ⟨hpool, hrows, rfl⟩
    apply mapM_map_ok.mpr
    intro taskId hmem
    have hlt := List.mem_range.mp hmem
    exact (htask _ _).mpr ((queries_task_iff hlt).mpr ⟨hpool, rfl, hrows taskId hlt⟩)

def CoversOnce (rowCount : ℕ) (ranges : List IdRange) : Prop :=
  ∀ id, 1 ≤ id → id ≤ rowCount → hits ranges id = 1

omit [LinearOrder L] in
theorem Batch.coversOnce_iff (table : Table L) (m : Machine) (b : Batch)
    (hrows : ∀ taskId < b.totalTaskCount, ∀ r ∈ b.taskRanges m table.rowCount taskId,
      HoldsRow table r) :
    CoversOnce table.rowCount
      ((List.range b.totalTaskCount).flatMap (b.taskRanges m table.rowCount)) ↔
      ∀ taskId < b.totalTaskCount, b.Even m table.rowCount taskId := by
  constructor
  · intro hcovers taskId hlt
    by_contra heven
    -- a row of the part makes its last id one of the table's
    obtain ⟨r, hr⟩ : ∃ r, r ∈ b.taskRanges m table.rowCount taskId :=
      List.exists_mem_of_ne_nil _ (queryRanges_ne_nil m _)
    obtain ⟨id, hid, hholds, -⟩ := hrows taskId hlt r hr
    have hin := ((b.tiles_taskRanges m table.rowCount hlt).exists_iff id).mp ⟨r, hr, hholds⟩
    have hend := b.queriedEnd_le_mark m table.rowCount hlt
    have hlast : b.mark table.rowCount (taskId + 1) ≤ table.rowCount + 1 :=
      (b.mark_mono _ (hlt) le_rfl).trans_eq (if_pos rfl)
    have hone := hcovers (b.mark table.rowCount (taskId + 1) - 1) (by omega) (by omega)
    obtain ⟨r', hr', hholds'⟩ := hits_pos_iff.mp (hone ▸ Nat.one_pos)
    obtain ⟨other, hother, hr'⟩ := List.mem_flatMap.mp hr'
    rw [b.misses_of_not_even m _ hlt heven (List.mem_range.mp hother) hr'] at hholds'
    cases hholds'
  · intro heven id hpos hle
    have htiles : Tiles (b.mark table.rowCount 0) (b.mark table.rowCount b.totalTaskCount)
        ((List.range b.totalTaskCount).flatMap (b.taskRanges m table.rowCount)) :=
      Tiles.flatMap_range fun taskId hlt => b.tiles_of_even m table.rowCount hlt (heven taskId hlt)
    rw [htiles.hits_eq]
    apply if_pos
    rw [b.mark_start _ b.tasks_pos, taskStart, Nat.mul_zero]
    exact ⟨Nat.zero_le id, (Nat.lt_succ_of_le hle).trans_eq (if_pos rfl).symm⟩

/-- The tasks of a batch return and query every id once exactly if there are two
    connections to spare, no task finds a range without rows, and in each task there
    is a connection for every core or the connections divide the part evenly. The
    single run never does. -/
theorem tasks_cover_iff (job : Job L) (m : Machine) (b : Batch) :
    ((∃ groups, quantizeBatch job m b = .ok groups ∧ CoversOnce job.table.rowCount groups.flatten) ↔
      (2 ≤ m.maxConnections ∧ 0 < b.parallel) ∧
      (∀ taskId < b.totalTaskCount, ∀ r ∈ b.taskRanges m job.table.rowCount taskId,
        HoldsRow job.table r) ∧
      ∀ taskId < b.totalTaskCount, b.Even m job.table.rowCount taskId) ∧
    ∀ total parallel, ¬ ∃ ranges, Queries job m ⟨total, parallel, none⟩ ranges ∧
      CoversOnce job.table.rowCount ranges := by
  constructor
  · constructor
    · rintro ⟨groups, hrun, hcovers⟩
      obtain ⟨hpool, hrows, rfl⟩ := quantizeBatch_eq_ok.mp hrun
      exact ⟨hpool, hrows, (b.coversOnce_iff job.table m hrows).mp hcovers⟩
    · rintro ⟨hpool, hrows, heven⟩
      exact ⟨_, quantizeBatch_eq_ok.mpr ⟨hpool, hrows, rfl⟩,
        (b.coversOnce_iff job.table m hrows).mpr heven⟩
  · rintro total parallel ⟨ranges, hqueries, hcovers⟩
    obtain ⟨hpos, hmiss⟩ := single_run_misses rfl hqueries
    have hone := hcovers job.table.rowCount hpos le_rfl
    rw [hmiss] at hone
    cases hone

def fourRows : Job ℤ where
  table := ⟨4, fun id => if id ≤ 4 then some [some (id : ℤ)] else none⟩
  arithmetic := integers
  splits := 1
  codebookRows := [⟨0, 0, [some 1]⟩, ⟨0, 1, [some 4]⟩]
  codebooks := [(0, [[some 1], [some 4]])]
  subvectorDim := 1
  codebook_read := rfl
  codebook_complete := by decide
  vectors_fit := by
    intro id v hv
    dsimp only at hv
    split_ifs at hv
    cases hv
    exact le_rfl

def threeCores : Machine := ⟨3, by decide, 4, 1⟩

theorem four_rows_not_covered :
    quantizeBatch fourRows threeCores ⟨1, by decide, none⟩ = .ok [[⟨0, 2⟩, ⟨2, 4⟩]] ∧
    hits [⟨0, 2⟩, ⟨2, 4⟩] 4 = 0 ∧
    quantizeBatch fourRows threeCores ⟨4, by decide, none⟩ =
      .error (.panicked "index out of bounds: the len is 0 but the index is 0") ∧
    (quantizeAndWriteVectors fourRows ⟨1, by decide, 4, 1⟩ ⟨none, none, none⟩).map
      (fun run => run.map Prod.fst) =
      .ok [⟨0, 4⟩] ∧
    hits [⟨0, 4⟩] 4 = 0 := by
  exact ⟨rfl, by decide, rfl, rfl, by decide⟩

end Lantern.QuantizationTasks
