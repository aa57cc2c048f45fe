import Lantern.ProductQuantization

set_option autoImplicit false

/-!
# The local quantisation of a table

Without skip flags `quantize_table_local` fetches the rows it trains the codebook
with and then quantises these rows and no others. Which rows it fetches follows from
the dataset limit, which selects a window of ids, and from how the window is divided
among the connections.
-/
namespace Lantern.QuantizeTable
open Fallible RangeTiling ProductQuantization

structure PQArgs where
  clusters : ℕ
  splits : ℕ
  datasetLimit : Option ℕ

structure Environment (L : Type) where
  machine : Machine
  table : Table L
  sampled : ℕ
  drawn : ℕ
  fit : ℕ → List (List (F32 L)) → Except String (List (List (F32 L)))
  arithmetic : Arithmetic L

structure Quantized (L : Type) where
  startOffsetId : ℕ
  subvectorDim : ℕ
  codebooks : Codebooks L
  pqColumn : ℕ → Option (List UInt8)

/-- `gen_range` panics on an empty range. -/
def startOffsetId (limit totalRowCount drawn : ℕ) : Except Failure ℕ :=
  if 0 < limit then
    let maxId := if totalRowCount < limit then 0 else totalRowCount - limit
    if maxId = 0 then .error (.panicked "cannot sample empty range") else .ok (drawn % maxId)
  else .ok 0

def windowSize (limit totalRowCount : ℕ) : ℕ :=
  if 0 < limit ∧ limit ≤ totalRowCount then limit else totalRowCount

def numConnections (m : Machine) : ℕ :=
  let activeConnections :=
    if m.maxConnections < m.activeConnections then m.maxConnections else m.activeConnections
  max (min m.numCores (m.maxConnections - activeConnections)) 1

def chunkSize (m : Machine) (totalRowCount : ℕ) : ℕ :=
  (totalRowCount + numConnections m - 1) / numConnections m

def fetchRanges (m : Machine) (offset totalRowCount : ℕ) : List IdRange :=
  connectionRanges m.numCores (numConnections m) offset (chunkSize m totalRowCount)
    (offset + totalRowCount + 1)

variable {L : Type}

def createCodebookForSubset (fit : ℕ → List (List (F32 L)) → Except String (List (List (F32 L))))
    (dataset : List (List (F32 L))) (clusterCount : ℕ) : Except Failure (List (List (F32 L))) :=
  match dataset with
  | [] => .error (.panicked "index out of bounds: the len is 0 but the index is 0")
  | _ :: _ =>
    match fit clusterCount dataset with
    | .error e => .error (.panicked e)
    | .ok centroids => .ok centroids

def fetchDataset (env : Environment L) (offset totalRowCount vectorDim : ℕ) :
    List (DatasetItem L) :=
  (fetchRanges env.machine offset totalRowCount).flatMap
    (fetchRows env.table.rowCount fun id => (env.table.vectors id).map (List.take (vectorDim + 1)))

def subvectorCentroids (env : Environment L) (dataset : List (DatasetItem L))
    (clusterCount subvectorDim i : ℕ) :
    Except Failure (ℕ × List (List (F32 L))) :=
  (dataset.mapM fun r =>
    slice r.vec (i * subvectorDim) (i * subvectorDim + subvectorDim)).bind fun subset =>
    (createCodebookForSubset env.fit subset clusterCount).map fun centroids => (i, centroids)

/-- The map gets a subvector's centroids once for each of them, so not at all if
    there are none. -/
def createCodebook (env : Environment L)
    (offset totalRowCount vectorDim subvectorDim clusterCount : ℕ) :
    Except Failure (Codebooks L × List (DatasetItem L)) :=
  let dataset := fetchDataset env offset totalRowCount vectorDim
  ((List.range (vectorDim / subvectorDim)).mapM
    (subvectorCentroids env dataset clusterCount subvectorDim)).map
    fun allCentroids => (allCentroids.filter fun c => !c.2.isEmpty, dataset)

def vectorDimension (env : Environment L) : Except Failure ℕ :=
  match env.table.vectors env.sampled with
  | none => .error (.bail "query returned an unexpected number of rows")
  | some [] => .error (.bail "error retrieving column 0: a Postgres value was NULL")
  | some v => .ok v.length

/-- `UPDATE … SET … FROM … WHERE src.id = dest.pk` -/
def writeQuantizedRows (rows : List (ℕ × List UInt8)) (pqColumn : ℕ → Option (List UInt8)) :
    ℕ → Option (List UInt8) :=
  fun id => (rows.lookup id).or (pqColumn id)

def quantizeWindow [LinearOrder L] (args : PQArgs) (env : Environment L)
    (offset totalRowCount vectorDim : ℕ) :
    Except Failure (Quantized L) :=
  if vectorDim < args.splits then
    .error (.bail
      s!"--splits ({args.splits}) should be less than or equal to vector dimensions ({vectorDim})")
  else if args.splits = 0 then .error (.panicked "attempt to divide by zero")
  else
    let subvectorDim := vectorDim / args.splits
    (createCodebook env offset totalRowCount vectorDim subvectorDim args.clusters).bind fun p =>
      (quantizeVectors env.arithmetic p.2 vectorDim subvectorDim args.splits p.1).map fun rows =>
        -- the column is new, so it is null before
        ⟨offset, subvectorDim, p.1, writeQuantizedRows rows fun _ => none⟩

def quantizeTableLocal [LinearOrder L] (args : PQArgs) (env : Environment L) :
    Except Failure (Quantized L) :=
  let limit := args.datasetLimit.getD 0
  let totalRowCount := env.table.rowCount
  if 0 < limit ∧ limit < args.clusters then
    .error (.bail "--dataset-limit should be greater than or equal to cluster count")
  else if totalRowCount < args.clusters then
    .error (.bail
      s!"--clusters ({args.clusters}) should be smaller than dataset size ({totalRowCount})")
  else
    (startOffsetId limit totalRowCount env.drawn).bind fun offset =>
      (vectorDimension env).bind fun vectorDim =>
        quantizeWindow args env offset (windowSize limit totalRowCount) vectorDim

def fetchEnd (m : Machine) (offset totalRowCount : ℕ) : ℕ :=
  if numConnections m = m.numCores then
    max (offset + (numConnections m - 1) * chunkSize m totalRowCount) (offset + totalRowCount + 1)
  else offset + numConnections m * chunkSize m totalRowCount

theorem numConnections_pos (m : Machine) : 0 < numConnections m :=
  Nat.lt_of_lt_of_le Nat.one_pos (le_max_right _ _)

theorem numConnections_le (m : Machine) : numConnections m ≤ m.numCores :=
  max_le (min_le_left _ _) m.cores_pos

theorem fetched_iff (m : Machine) (offset totalRowCount id : ℕ) :
    (∃ r ∈ fetchRanges m offset totalRowCount, r.holds id = true) ↔
      offset ≤ id ∧ id < fetchEnd m offset totalRowCount := by
  unfold fetchRanges fetchEnd
  split_ifs with hall
  · -- every core has a connection, and the last range ends behind the window
    obtain ⟨n, hn⟩ := Nat.exists_eq_add_of_le' (numConnections_pos m)
    rw [← hall, hn, Nat.add_sub_cancel, connectionRanges_all]
    simp only [List.mem_append, List.mem_singleton, or_and_right, exists_or, exists_eq_left]
    rw [(connectionRanges_fewer (Nat.lt_succ_self n) offset _ _).exists_iff, IdRange.holds_iff]
    generalize n * chunkSize m totalRowCount = size
    dsimp only
    omega
  · exact (connectionRanges_fewer (lt_of_le_of_ne (numConnections_le m) hall) _ _ _).exists_iff id

theorem lt_mul_divCeil_iff {n c : ℕ} (hc : 0 < c) : n < c * ((n + c - 1) / c) ↔ ¬ c ∣ n := by
  constructor
  · rintro hlt ⟨k, rfl⟩
    have hdiv : (c * k + c - 1) / c = k := by
      rw [Nat.add_sub_assoc hc, Nat.mul_add_div hc,
        Nat.div_eq_of_lt (Nat.sub_lt hc Nat.one_pos), Nat.add_zero]
    rw [hdiv] at hlt
    exact Nat.lt_irrefl _ hlt
  · intro hdvd
    have hmod : 0 < n % c := Nat.pos_of_ne_zero fun h => hdvd (Nat.dvd_of_mod_eq_zero h)
    have hceil : n / c + 1 ≤ (n + c - 1) / c := by
      rw [Nat.le_div_iff_mul_le hc, Nat.add_mul, Nat.one_mul, Nat.mul_comm]
      have := Nat.div_add_mod n c
      omega
    calc n < c * (n / c + 1) := Nat.lt_mul_div_succ n hc
      _ ≤ c * ((n + c - 1) / c) := Nat.mul_le_mul_left c hceil

theorem lt_fetchEnd_whole_iff (m : Machine) (rowCount : ℕ) :
    rowCount < fetchEnd m 0 rowCount ↔ numConnections m = m.numCores ∨
      ¬ numConnections m ∣ rowCount := by
  unfold fetchEnd
  split_ifs with hall
  · exact iff_of_true (by omega) (Or.inl hall)
  · rw [Nat.zero_add, or_iff_right hall]
    exact lt_mul_divCeil_iff (numConnections_pos m)

theorem le_fetchEnd_whole (m : Machine) (rowCount : ℕ) : rowCount ≤ fetchEnd m 0 rowCount := by
  by_cases hlt : rowCount < fetchEnd m 0 rowCount
  · exact hlt.le
  · have hdvd := not_or.mp fun h => hlt ((lt_fetchEnd_whole_iff m rowCount).mpr h)
    obtain ⟨k, hk⟩ := not_not.mp hdvd.2
    unfold fetchEnd chunkSize
    rw [if_neg hdvd.1, Nat.zero_add]
    calc rowCount = numConnections m * k := hk
      _ ≤ numConnections m * ((rowCount + numConnections m - 1) / numConnections m) := by
        apply Nat.mul_le_mul_left
        rw [Nat.le_div_iff_mul_le (numConnections_pos m), Nat.mul_comm, ← hk]
        have := numConnections_pos m
        omega

theorem mem_fetchDataset {env : Environment L} {offset totalRowCount vectorDim : ℕ}
    {x : DatasetItem L} :
    x ∈ fetchDataset env offset totalRowCount vectorDim ↔
      (1 ≤ x.id ∧ x.id ≤ env.table.rowCount) ∧
        (offset ≤ x.id ∧ x.id < fetchEnd env.machine offset totalRowCount) ∧
        ∃ v, env.table.vectors x.id = some v ∧ v.take (vectorDim + 1) = x.vec := by
  unfold fetchDataset
  rw [List.mem_flatMap, ← fetched_iff, ← Option.map_eq_some_iff]
  simp only [mem_fetchRows]
  constructor
  · rintro ⟨r, hr, hid, hholds, hvec⟩
    exact ⟨hid, ⟨r, hr, hholds⟩, hvec⟩
  · rintro ⟨hid, ⟨r, hr, hholds⟩, hvec⟩
    exact ⟨r, hr, hid, hholds, hvec⟩

variable [LinearOrder L]

structure Ran (args : PQArgs) (env : Environment L) (q : Quantized L) (vectorDim : ℕ)
    (rows : List (ℕ × List UInt8)) : Prop where
  offset : startOffsetId (args.datasetLimit.getD 0) env.table.rowCount env.drawn =
    .ok q.startOffsetId
  fits : args.splits * q.subvectorDim ≤ vectorDim
  quantized : quantizeVectors env.arithmetic
    (fetchDataset env q.startOffsetId
      (windowSize (args.datasetLimit.getD 0) env.table.rowCount) vectorDim)
    vectorDim q.subvectorDim args.splits q.codebooks = .ok rows
  written : ∀ id, q.pqColumn id = rows.lookup id

theorem ran_of_quantizeTableLocal {args : PQArgs} {env : Environment L} {q : Quantized L}
    (h : quantizeTableLocal args env = .ok q) :
    ∃ vectorDim rows, Ran args env q vectorDim rows := by
  unfold quantizeTableLocal at h
  dsimp only at h
  split_ifs at h
  obtain ⟨offset, hoffset, h⟩ := bind_eq_ok.mp h
  obtain ⟨vectorDim, -, h⟩ := bind_eq_ok.mp h
  unfold quantizeWindow at h
  split_ifs at h
  obtain ⟨⟨codebooks, dataset⟩, hcodebook, h⟩ := bind_eq_ok.mp h
  obtain ⟨rows, hrows, rfl⟩ := map_eq_ok.mp h
  obtain ⟨_, -, hpair⟩ := map_eq_ok.mp hcodebook
  cases hpair
  exact ⟨vectorDim, rows, hoffset, Nat.mul_div_le _ _, hrows, fun id => Option.or_none⟩

section Rows
variable {args : PQArgs} {env : Environment L} {q : Quantized L} {vectorDim id : ℕ}
  {rows : List (ℕ × List UInt8)} {v : List (F32 L)}

def Fetched (args : PQArgs) (env : Environment L) (q : Quantized L) (id : ℕ) : Prop :=
  q.startOffsetId ≤ id ∧
    id < fetchEnd env.machine q.startOffsetId
    (windowSize (args.datasetLimit.getD 0) env.table.rowCount)

def RowQuantized (args : PQArgs) (env : Environment L) (q : Quantized L) (id : ℕ)
    (v : List (F32 L)) : Prop :=
  ∃ codes, q.pqColumn id = some codes ∧
    NearestCode env.arithmetic q.codebooks q.subvectorDim args.splits v codes

theorem rowQuantized_iff (hran : Ran args env q vectorDim rows)
    (hid : 1 ≤ id ∧ id ≤ env.table.rowCount) (hv : env.table.vectors id = some v) :
    RowQuantized args env q id v ↔
      Fetched args env q id ∧ Codable env.arithmetic q.codebooks q.subvectorDim args.splits v := by
  have hcut : ∀ i < args.splits,
      subvectorOf q.subvectorDim (v.take (vectorDim + 1)) i = subvectorOf q.subvectorDim v i := by
    intro i hi
    exact subvectorOf_take (Nat.le_succ_of_le (split_end_le hran.fits hi))
  unfold RowQuantized
  rw [hran.written]
  rcases quantizeVectors_lookup hran.quantized id with ⟨hnone, hall⟩ | ⟨codes, hcodes, x, hx, hq⟩
  · -- nothing was written to the row
    rw [hnone]
    refine iff_of_false (fun h => ?_) fun h => ?_
    · obtain ⟨codes, hcodes, -⟩ := h
      cases hcodes
    · exact hall ⟨id, v.take (vectorDim + 1)⟩ (mem_fetchDataset.mpr ⟨hid, h.1, v, hv, rfl⟩) rfl
  · obtain ⟨hmap, rfl⟩ := quantizeVector_eq_ok.mp hq
    obtain ⟨-, hfetched, w, hw, hvec⟩ := mem_fetchDataset.mp hx
    cases hv.symm.trans hw
    have hcode : NearestCode env.arithmetic q.codebooks q.subvectorDim args.splits v codes ↔
        Codable env.arithmetic q.codebooks q.subvectorDim args.splits v := by
      rw [← NearestCode.congr hcut, ← Codable.congr hcut, hvec]
      exact nearestCode_iff_codable hran.fits hmap
    have hrow : Fetched args env q x.id := hfetched
    rw [hcodes, and_iff_right hrow, ← hcode]
    constructor
    · rintro ⟨codes', heq, h⟩
      cases heq
      exact h
    · exact fun h => ⟨codes, rfl, h⟩

end Rows

theorem fetched_whole_iff {args : PQArgs} {env : Environment L} {q : Quantized L} {vectorDim : ℕ}
    {rows : List (ℕ × List UInt8)} (hran : Ran args env q vectorDim rows)
    (hlimit : args.datasetLimit.getD 0 = 0) {id : ℕ} (hid : id ≤ env.table.rowCount) :
    Fetched args env q id ↔ id = env.table.rowCount →
      numConnections env.machine = env.machine.numCores ∨
      ¬ numConnections env.machine ∣ env.table.rowCount := by
  have hoffset : q.startOffsetId = 0 := by
    have h := hran.offset
    rw [hlimit] at h
    exact (Except.ok.inj h).symm
  have hsize : windowSize (args.datasetLimit.getD 0) env.table.rowCount = env.table.rowCount := by
    rw [hlimit]
    exact if_neg fun h => absurd h.1 (Nat.lt_irrefl 0)
  unfold Fetched
  rw [hoffset, hsize, and_iff_right (Nat.zero_le id), ← lt_fetchEnd_whole_iff]
  have hle := le_fetchEnd_whole env.machine env.table.rowCount
  omega

/-- In a run that returned, every row with a vector has the vector's code exactly if
    every such row was fetched and its nearest centroids are told by bytes. Without a
    limit the last row is not fetched if there are fewer connections than cores and
    the number of connections divides the number of rows. -/
theorem quantized_iff {args : PQArgs} {env : Environment L} {q : Quantized L}
    (hrun : quantizeTableLocal args env = .ok q) :
    (∀ id v, 1 ≤ id → id ≤ env.table.rowCount → env.table.vectors id = some v →
      RowQuantized args env q id v) ↔
      (args.datasetLimit.getD 0 = 0 → 1 ≤ env.table.rowCount →
        (env.table.vectors env.table.rowCount).isSome →
          numConnections env.machine = env.machine.numCores ∨
          ¬ numConnections env.machine ∣ env.table.rowCount) ∧
      (0 < args.datasetLimit.getD 0 → ∀ id, 1 ≤ id → id ≤ env.table.rowCount →
        (env.table.vectors id).isSome →
        Fetched args env q id) ∧
      ∀ id v, 1 ≤ id → id ≤ env.table.rowCount → env.table.vectors id = some v →
        Codable env.arithmetic q.codebooks q.subvectorDim args.splits v := by
  obtain ⟨vectorDim, rows, hran⟩ := ran_of_quantizeTableLocal hrun
  constructor
  · intro h
    refine ⟨fun hlimit hpos hsome => ?_, fun _ id hpos hle hsome => ?_, fun id v hpos hle hv => ?_⟩
    · obtain ⟨v, hv⟩ := Option.isSome_iff_exists.mp hsome
      have hrow := (rowQuantized_iff hran ⟨hpos, le_rfl⟩ hv).mp (h _ v hpos le_rfl hv)
      exact (fetched_whole_iff hran hlimit le_rfl).mp hrow.1 rfl
    · obtain ⟨v, hv⟩ := Option.isSome_iff_exists.mp hsome
      exact ((rowQuantized_iff hran ⟨hpos, hle⟩ hv).mp (h id v hpos hle hv)).1
    · exact ((rowQuantized_iff hran ⟨hpos, hle⟩ hv).mp (h id v hpos hle hv)).2
  · rintro ⟨hwhole, hwindow, hcodable⟩ id v hpos hle hv
    refine (rowQuantized_iff hran ⟨hpos, hle⟩ hv).mpr ⟨?_, hcodable id v hpos hle hv⟩
    have hsome : (env.table.vectors id).isSome := Option.isSome_of_eq_some hv
    rcases Nat.eq_zero_or_pos (args.datasetLimit.getD 0) with hlimit | hlimit
    · apply (fetched_whole_iff hran hlimit hle).mpr
      rintro rfl
      exact hwhole hlimit hpos hsome
    · exact hwindow hlimit id hpos hle hsome

def twoCores (activeConnections : ℕ) : Environment ℤ where
  machine := ⟨2, by decide, 10, activeConnections⟩
  table := ⟨4, fun id => if id ≤ 4 then some [some (id : ℤ)] else none⟩
  sampled := 1
  drawn := 0
  fit clusterCount dataset := .ok (dataset.take clusterCount)
  arithmetic := integers

def twoClusters : PQArgs := ⟨2, 1, none⟩

def columnOf (r : Except Failure (Quantized ℤ)) : Option (List (Option (List UInt8))) :=
  match r with
  | .error _ => none
  | .ok q => some ((List.range' 1 4).map q.pqColumn)

def fourCoded : Quantized ℤ where
  startOffsetId := 0
  subvectorDim := 1
  codebooks := [(0, [[some 1], [some 2]])]
  pqColumn := writeQuantizedRows [(1, [0]), (2, [1]), (3, [1]), (4, [1])] fun _ => none

theorem four_rows_quantized :
    quantizeTableLocal twoClusters (twoCores 8) = .ok fourCoded ∧
      ∀ id v, 1 ≤ id → id ≤ 4 → (twoCores 8).table.vectors id = some v →
        RowQuantized twoClusters (twoCores 8) fourCoded id v := by
  have hrun : quantizeTableLocal twoClusters (twoCores 8) = .ok fourCoded := rfl
  refine ⟨hrun, (quantized_iff hrun).mpr ⟨fun _ _ _ => Or.inl (by decide), fun h =>
    absurd h (by decide), ?_⟩⟩
  intro id v hpos hle hv i hi centroids hc
  have hle : id ≤ 4 := hle
  have hi : i < 1 := hi
  obtain rfl : i = 0 := by omega
  cases (if_pos hle).symm.trans hv
  cases hc
  interval_cases id
  all_goals exact ⟨by decide, Or.inl ⟨_, List.mem_cons_self, by decide⟩⟩

theorem last_row_left_out :
    columnOf (quantizeTableLocal twoClusters (twoCores 9)) =
      some [some [0], some [1], some [1], none] ∧
      ((twoCores 9).table.vectors 4).isSome := by
  constructor
  · decide +kernel
  · decide

end Lantern.QuantizeTable
