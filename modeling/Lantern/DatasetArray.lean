import Lantern.BuildCapacity

set_option autoImplicit false

/-!
# The array of vectors behind a codebook

`create_pq_codebook` collects pointers to the vectors of a table in an array that has
the estimated number of elements at first. The array grows after the write that needed
the room, so one row more than the estimate is written behind the end.
-/
namespace Lantern.DatasetArray
open FuelLoop IndexRelation NodeLayout EventTrail BuildCapacity

def MaxAllocSize : ℕ := 0x3fffffff
def sizeofSizeT : ℕ := 8

structure Args where
  column : String
  clusterCnt : UInt32
  subvectorCnt : UInt32
  distanceMetric : String
  datasetSizeLimit : UInt32
  deriving DecidableEq, Repr

/-- A row is the number of items of its vector, or null. -/
structure Table where
  heap : Heap
  columns : List String
  rows : List (Option ℕ)
  deriving DecidableEq, Repr

inductive Event where
  | write (index allocated : ℕ)
  deriving DecidableEq, Repr

abbrev Scan (α : Type) := Trail Event Fault α

structure Dataset where
  allocated : ℕ
  estimatedRowCount : UInt32
  size : UInt32
  dim : ℕ
  deriving DecidableEq, Repr

def getMetricKindFromStr (metric : String) : Scan MetricKind :=
  if metric = "l2sq" then .pure .l2sq
  else if metric = "cos" ∨ metric = "cosine" then .pure .cos
  else if metric = "hamming" then .pure .hamming
  else .raise (.elog s!"Unsupported metric kind: {metric} . Should be one of (l2sq, cos, hamming)")

def palloc (elements : ℕ) : Scan ℕ :=
  if MaxAllocSize < elements * sizeofSizeT then
    .raise (.elog s!"invalid memory alloc request size {elements * sizeofSizeT}")
  else .pure elements

def checkArgs (args : Args) : Scan MetricKind :=
  if args.subvectorCnt = 0 then .raise (.elog "Subvector count can not be zero")
  else if 256 < args.clusterCnt then .raise (.elog "Cluster count can not be greater than 256")
  else if 0 < args.datasetSizeLimit ∧ args.datasetSizeLimit < args.clusterCnt then
    .raise (.elog "Dataset size limit should be greater or equal to cluster_cnt count")
  else getMetricKindFromStr args.distanceMetric

def checkTupleDim (subvectorCnt : UInt32) (datasetDim nItems : ℕ) : Scan ℕ :=
  if datasetDim = 0 then
    if nItems % subvectorCnt.toNat ≠ 0 then
      .raise (.elog "Dataset dimensions should be divisible by subvector count")
    else .pure nItems
  else if nItems ≠ datasetDim then
    .raise (.elog s!"Table should have equally sized array: expected {datasetDim} got {nItems}")
  else .pure datasetDim

def grow (s : Dataset) : Scan Dataset :=
  if s.estimatedRowCount = s.size - 1 then
    (palloc (s.estimatedRowCount * 2).toNat).bind fun allocated =>
      .pure { s with allocated := allocated, estimatedRowCount := s.estimatedRowCount * 2 }
  else .pure s

def scanTable (args : Args) : List (Option ℕ) → Dataset → Scan Dataset
  | [], s => .pure s
  | none :: rows, s => scanTable args rows s
  | some nItems :: rows, s =>
    (checkTupleDim args.subvectorCnt s.dim nItems).bind fun dim =>
      (Trail.emit (.write s.size.toNat s.allocated)).bind fun _ =>
        let s := { s with size := s.size + 1, dim := dim }
        if 0 < args.datasetSizeLimit ∧ s.size = args.datasetSizeLimit then .pure s
        else (grow s).bind (scanTable args rows)

def createPqCodebook (args : Args) (table : Table) : Scan Dataset :=
  (checkArgs args).bind fun _ =>
    let estimatedRowCount := estimateRowCount table.heap
    if args.column ∉ table.columns then .raise (.elog s!"Column {args.column} not found in table")
    else
      (palloc estimatedRowCount.toNat).bind fun allocated =>
        (scanTable args table.rows ⟨allocated, estimatedRowCount, 0, 0⟩).bind fun s =>
          if s.size < args.clusterCnt then
            .raise (.elog "Dataset size can not be smaller than cluster count")
          else if s.dim < args.subvectorCnt.toNat then
            .raise (.elog "Dataset dimension can not be smaller than subvector count")
          else .pure s

/-- The rows that pass the checks of their dimension, for a dataset of a dimension (0 as
    long as it has none): not those that are null, and none from the first on that fails. -/
def rowsAccepted (subvectorCnt : UInt32) : ℕ → List (Option ℕ) → ℕ
  | _, [] => 0
  | dim, none :: rows => rowsAccepted subvectorCnt dim rows
  | dim, some nItems :: rows =>
    if (if dim = 0 then nItems % subvectorCnt.toNat = 0 else nItems = dim) then
      rowsAccepted subvectorCnt nItems rows + 1
    else 0

def rowsWritten (args : Args) (dim size : ℕ) (rows : List (Option ℕ)) : ℕ :=
  if args.datasetSizeLimit = 0 then rowsAccepted args.subvectorCnt dim rows
  else min (rowsAccepted args.subvectorCnt dim rows) (args.datasetSizeLimit.toNat - size)

def Inside : Event → Prop
  | .write index allocated => index < allocated

theorem checkTupleDim_cases (subvectorCnt : UInt32) (dim nItems : ℕ) :
    (checkTupleDim subvectorCnt dim nItems = .pure nItems ∧
        if dim = 0 then nItems % subvectorCnt.toNat = 0 else nItems = dim) ∨
      (∃ e, checkTupleDim subvectorCnt dim nItems = .raise e) ∧
        ¬(if dim = 0 then nItems % subvectorCnt.toNat = 0 else nItems = dim) := by
  unfold checkTupleDim
  by_cases hdim : dim = 0
  · simp only [if_pos hdim]
    by_cases hdvd : nItems % subvectorCnt.toNat = 0
    · exact .inl ⟨if_neg (not_not.mpr hdvd), hdvd⟩
    · exact .inr ⟨⟨_, if_pos hdvd⟩, hdvd⟩
  · simp only [if_neg hdim]
    by_cases heq : nItems = dim
    · subst heq
      exact .inl ⟨if_neg (not_not.mpr rfl), rfl⟩
    · exact .inr ⟨⟨_, if_pos heq⟩, heq⟩

structure Sound (args : Args) (s : Dataset) : Prop where
  allocated_eq : s.allocated = s.estimatedRowCount.toNat
  size_le : s.size.toNat ≤ s.allocated
  allocated_lt : s.allocated < 2 ^ 31
  below_limit : args.datasetSizeLimit = 0 ∨ s.size.toNat < args.datasetSizeLimit.toNat

section Rows
variable {args : Args} {dim size nItems : ℕ} (rows : List (Option ℕ))

theorem rowsWritten_accepted
    (h : if dim = 0 then nItems % args.subvectorCnt.toNat = 0 else nItems = dim)
    (hlimit : args.datasetSizeLimit = 0 ∨ size < args.datasetSizeLimit.toNat) :
    rowsWritten args dim size (some nItems :: rows) = rowsWritten args nItems
      (size + 1) rows + 1 := by
  unfold rowsWritten
  rw [rowsAccepted, if_pos h]
  split_ifs with hzero
  · rfl
  · have := hlimit.resolve_left hzero
    omega

theorem rowsWritten_refused
    (h : ¬(if dim = 0 then nItems % args.subvectorCnt.toNat = 0 else nItems = dim)) :
    rowsWritten args dim size (some nItems :: rows) = 0 := by
  unfold rowsWritten
  rw [rowsAccepted, if_neg h, Nat.zero_min]
  exact ite_self 0

theorem rowsWritten_limit (hlimit : args.datasetSizeLimit ≠ 0) :
    rowsWritten args dim args.datasetSizeLimit.toNat rows = 0 := by
  rw [rowsWritten, if_neg hlimit, Nat.sub_self, Nat.min_zero]

end Rows

section Next
variable {args : Args} {s : Dataset}

theorem Sound.size_succ (hs : Sound args s) : (s.size + 1).toNat = s.size.toNat + 1 := by
  have hle := hs.size_le
  have hlt := hs.allocated_lt
  have hone : (1 : UInt32).toNat = 1 := rfl
  rw [UInt32.toNat_add, hone]
  exact Nat.mod_eq_of_lt (by omega)

theorem Sound.next (hs : Sound args s) (hroom : s.size.toNat < s.allocated)
    (hstop : ¬(0 < args.datasetSizeLimit ∧ s.size + 1 = args.datasetSizeLimit)) (dim : ℕ) :
    Sound args { s with size := s.size + 1, dim := dim } := by
  have hsize := hs.size_succ
  refine ⟨hs.allocated_eq, hsize ▸ hroom, hs.allocated_lt, ?_⟩
  by_cases hzero : args.datasetSizeLimit = 0
  · exact .inl hzero
  · have hbelow := hs.below_limit.resolve_left hzero
    have hne : (s.size + 1).toNat ≠ args.datasetSizeLimit.toNat := fun h =>
      hstop ⟨UInt32.pos_iff_ne_zero.mpr hzero, UInt32.toNat_inj.mp h⟩
    exact .inr (by dsimp only; omega)

theorem Sound.grow_eq (hs : Sound args s) (hpos : 0 < s.size.toNat) : grow s = .pure s := by
  have hle := hs.size_le
  have heq := hs.allocated_eq
  apply if_neg
  intro hfull
  have hone : (1 : UInt32).toNat = 1 := rfl
  have hpos : 1 ≤ s.size := UInt32.le_iff_toNat_le.mpr (hone ▸ hpos)
  have hnat := congrArg UInt32.toNat hfull
  rw [UInt32.toNat_sub_of_le _ _ hpos, hone] at hnat
  have hpos := UInt32.le_iff_toNat_le.mp hpos
  omega

theorem scanTable_inside_iff (rows : List (Option ℕ)) (hs : Sound args s) :
    (∀ e ∈ (scanTable args rows s).events, Inside e) ↔
      s.size.toNat + rowsWritten args s.dim s.size.toNat rows ≤ s.allocated := by
  induction rows generalizing s with
  | nil =>
    have hnone : rowsWritten args s.dim s.size.toNat [] = 0 := by simp [rowsWritten, rowsAccepted]
    rw [hnone]
    exact iff_of_true (List.forall_mem_nil _) hs.size_le
  | cons row rows ih =>
    cases row with
    | none => exact ih hs
    | some nItems =>
      rw [scanTable]
      rcases checkTupleDim_cases args.subvectorCnt s.dim nItems
        with ⟨hcheck, hok⟩ | ⟨⟨e, hcheck⟩, hbad⟩
      · rw [hcheck, Trail.pure_bind, Trail.emit, Trail.done_bind, List.singleton_append,
          List.forall_mem_cons, rowsWritten_accepted rows hok hs.below_limit]
        dsimp only
        by_cases hroom : s.size.toNat < s.allocated
        · have hinside : Inside (.write s.size.toNat s.allocated) := hroom
          rw [and_iff_right hinside]
          split_ifs with hstop
          · -- the limit is reached
            have hlimit : args.datasetSizeLimit ≠ 0 := UInt32.pos_iff_ne_zero.mp hstop.1
            rw [← hs.size_succ, hstop.2, rowsWritten_limit rows hlimit]
            exact iff_of_true (List.forall_mem_nil _) hroom
          · have hnext := hs.next hroom hstop nItems
            have hsize := hs.size_succ
            rw [hnext.grow_eq (by dsimp only; omega), Trail.pure_bind, ih hnext]
            dsimp only
            rw [hsize]
            omega
        · exact iff_of_false (fun h => hroom h.1) (by omega)
      · rw [hcheck, Trail.raise_bind, rowsWritten_refused rows hbad]
        exact iff_of_true (List.forall_mem_nil _) hs.size_le

end Next

theorem checkArgs_cases (args : Args) : (∃ metric, checkArgs args = .pure metric) ∨
      ∃ e, checkArgs args = .raise e := by
  unfold checkArgs getMetricKindFromStr
  split_ifs
  all_goals first | exact .inl ⟨_, rfl⟩ | exact .inr ⟨_, rfl⟩

def Refused (args : Args) (table : Table) : Prop :=
  (∃ e, checkArgs args = .raise e) ∨ args.column ∉ table.columns ∨
    MaxAllocSize < (estimateRowCount table.heap).toNat * sizeofSizeT

theorem events_of_refused {args : Args} {table : Table} (h : Refused args table) :
    (createPqCodebook args table).events = [] := by
  unfold createPqCodebook
  rcases checkArgs_cases args with ⟨metric, hcheck⟩ | ⟨e, hcheck⟩
  · rw [hcheck, Trail.pure_bind]
    dsimp only
    by_cases hcolumn : args.column ∉ table.columns
    · rw [if_pos hcolumn]
      rfl
    · have hlarge : MaxAllocSize < (estimateRowCount table.heap).toNat * sizeofSizeT := by
        rcases h with ⟨e, he⟩ | h | h
        · rw [hcheck] at he
          cases he
        · exact absurd h hcolumn
        · exact h
      rw [if_neg hcolumn, palloc, if_pos hlarge]
      rfl
  · rw [hcheck]
    rfl

theorem events_of_scan {args : Args} {table : Table} (h : ¬Refused args table) :
    (createPqCodebook args table).events = (scanTable args table.rows
      ⟨(estimateRowCount table.heap).toNat, estimateRowCount table.heap, 0, 0⟩).events := by
  obtain ⟨hargs, hcolumn, hsmall⟩ : (¬∃ e, checkArgs args = .raise e) ∧
      ¬args.column ∉ table.columns ∧
      ¬MaxAllocSize < (estimateRowCount table.heap).toNat * sizeofSizeT := by
    simpa only [Refused, not_or] using h
  obtain ⟨metric, hcheck⟩ := (checkArgs_cases args).resolve_right hargs
  unfold createPqCodebook
  rw [hcheck, Trail.pure_bind]
  dsimp only
  rw [if_neg hcolumn, palloc, if_neg hsmall, Trail.pure_bind]
  generalize scanTable args table.rows _ = scan
  obtain ⟨events, outcome⟩ := scan
  cases outcome with
  | done s =>
    rw [Trail.done_bind]
    split_ifs <;> exact List.append_nil events
  | fault e => rfl
  | unfinished => rfl

/-- All writes are inside the array exactly if none is tried, or no more rows are written
    than the table was estimated to have. -/
theorem dataset_writes_inside_iff (args : Args) (table : Table) :
    (∀ index allocated, .write index allocated ∈ (createPqCodebook args table).events →
      index < allocated) ↔
      Refused args table ∨ rowsWritten args 0 0 table.rows ≤
        (estimateRowCount table.heap).toNat := by
  have hinside : (∀ index allocated, .write index allocated ∈ (createPqCodebook args table).events →
      index < allocated) ↔
      ∀ e ∈ (createPqCodebook args table).events, Inside e :=
    ⟨fun h ⟨index, allocated⟩ he => h index allocated he, fun h index allocated he => h _ he⟩
  rw [hinside]
  by_cases hrefused : Refused args table
  · rw [events_of_refused hrefused]
    exact iff_of_true (List.forall_mem_nil _) (.inl hrefused)
  · have hsmall : ¬MaxAllocSize < (estimateRowCount table.heap).toNat * sizeofSizeT := fun h =>
      hrefused (.inr (.inr h))
    have hsound :
        Sound args ⟨(estimateRowCount table.heap).toNat, estimateRowCount table.heap, 0, 0⟩ := by
      refine ⟨rfl, Nat.zero_le _, ?_, ?_⟩
      · unfold MaxAllocSize sizeofSizeT at hsmall
        dsimp only
        omega
      · by_cases hzero : args.datasetSizeLimit = 0
        · exact .inl hzero
        · exact .inr (UInt32.lt_iff_toNat_lt.mp (UInt32.pos_iff_ne_zero.mpr hzero))
    rw [events_of_scan hrefused, scanTable_inside_iff _ hsound, or_iff_right hrefused]
    dsimp only
    rw [UInt32.toNat_zero, Nat.zero_add]

theorem row_past_estimate :
    .write 2 2 ∈
      (createPqCodebook ⟨"v", 1, 1, "l2sq", 0⟩ ⟨⟨2, 1⟩, ["v"], [some 4, some 4, some 4]⟩).events ∧
      .write 0 0 ∈
        (createPqCodebook ⟨"v", 1, 1, "l2sq", 0⟩ ⟨⟨33554432, 128⟩, ["v"], [some 4]⟩).events := by
  decide

end Lantern.DatasetArray
