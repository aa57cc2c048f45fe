import Lantern.PageRoom
import Lantern.StagingBuffer

set_option autoImplicit false

/-!
# The sizes of built and of inserted nodes

A build takes the size of a node from the dimension that usearch works with and from the
width of a stored scalar. An insert takes it from the dimension in the header and always
counts four bytes for each, so it may reserve too much, and a node that the build can
store may not fit a page.
-/
namespace Lantern.NodeSizes
open FuelLoop ByteStrings NodeLayout PageLayout IndexRelation PageChain StoreNodes StoreIndex
  StoreStreaming
open StoreRewrite InsertTuple SystemRuns IndexRuns PageRoom StoreVisits StagingBuffer

def couldNotAddItem : Fault :=
  .elog "LanternDB invariant violation: unexpectedly could not add item to the last existing page"

theorem addOnNewBlock_refused_iff {t : HnswIndexTuple} {b : ℕ} {st : InsertState}
    (hlen : st.ed.bufs.length ≤ 1) (hb : ∀ d ∈ st.ed.bufs, d.blockno ≠ b) :
    addOnNewBlock t b st = .fault couldNotAddItem ↔ ¬ FitsFreshPage t.node.length := by
  rw [addOnNewBlock_eq hlen hb]
  split_ifs with hfits
  · exact ⟨fun h => (by cases h), fun h => absurd hfits h⟩
  · exact ⟨fun _ => hfits, fun _ => rfl⟩

theorem placeTuple_refused_iff {r : Rel} {t : HnswIndexTuple} (hr : IndexChain r)
    (ht : t.seqid = r.header.numVectors) (hsize : t.node.length = t.size) :
    placeTuple t ⟨r.pages, r.header, extraDirtiedNew⟩ = .fault couldNotAddItem ↔
      ¬ FitsFreshPage t.node.length ∧ r.pages.length + 1 < InvalidBlockNumber := by
  have hfull : ∀ {α : Type}, (.fault noBlockLeft : Outcome Fault α) ≠ .fault couldNotAddItem := by
    intro α h
    have htext := Outcome.fault.inj h
    simp [noBlockLeft, couldNotAddItem] at htext
  by_cases hl : r.header.lastDataBlock = InvalidBlockNumber
  · rw [placeTuple, if_pos hl, readBufferNew]
    split_ifs with hlen
    · rw [Outcome.bind_done,
        addOnNewBlock_refused_iff (by simp [extraDirtiedNew]) (by simp [extraDirtiedNew])]
      exact (and_iff_left hlen).symm
    · exact ⟨fun h => absurd h hfull, fun h => absurd h.2 hlen⟩
  · obtain ⟨-, -, h1, h2, hitems⟩ := hr.chained.lastPage hl
    obtain ⟨hnext, hid⟩ := hr.chained.lastSpecial hl
    have hformat := lastPage_format hr hl
    rw [placeTuple_last t hl]
    dsimp only
    split_ifs with htest
    · -- the test passed: the last page takes the tuple, so an empty one would too
      have hadd := pageAddItem_of_freeSpace hformat (hsize ▸ htest)
      rw [addVector_last hitems (hid.trans ht.symm) hnext hadd, Outcome.bind_done]
      refine ⟨fun h => (by cases h), fun h => ?_⟩
      rw [pageAddItem_unfit hformat h.1] at hadd
      cases hadd
    · rw [readBufferNew]
      split_ifs with hlen
      · rw [Outcome.bind_done,
          addOnNewBlock_refused_iff (by simp [ExtraDirtiedBufs.write, writeDirtied])
          (by simp [ExtraDirtiedBufs.write, writeDirtied]; omega)]
        exact (and_iff_left hlen).symm
      · exact ⟨fun h => absurd h hfull, fun h => absurd h.2 hlen⟩

theorem prepareIndexTuple_refused_iff {r : Rel} (hr : IndexChain r) (md : Metadata) (level : ℕ) :
    prepareIndexTuple md r.header.numVectors level ⟨r.pages, r.header, extraDirtiedNew⟩ =
      .fault couldNotAddItem ↔
      ¬ FitsFreshPage (newTuple md r level).size ∧ r.pages.length + 1 < InvalidBlockNumber := by
  have hlen : (newTuple md r level).node.length = (newTuple md r level).size :=
    List.length_replicate
  have hplace := @placeTuple_refused_iff r (newTuple md r level) hr rfl hlen
  rw [hlen] at hplace
  rw [← hplace]
  change Outcome.map _ (placeTuple (newTuple md r level) _) = _ ↔ _
  cases placeTuple (newTuple md r level) ⟨r.pages, r.header, extraDirtiedNew⟩ with
  | done x => exact ⟨fun h => (by cases h), fun h => (by cases h)⟩
  | fault e =>
    exact ⟨fun h => congrArg _ (Outcome.fault.inj h), fun h => congrArg _ (Outcome.fault.inj h)⟩
  | unfinished => exact ⟨fun h => (by cases h), fun h => (by cases h)⟩

/-- Builds over at least one row that succeed: the options and the nodes stored. -/
inductive BuiltFrom (o : IndexOptions) : List (List UInt8) → Rel → Prop where
  | stored {σ : Type} {read : σ → ℕ → Outcome Fault (List UInt8 × σ)} {rem : σ → List UInt8}
      {bufferSize fuel : ℕ} {file : UsearchFile o.metadata o.usearchOptions.dimensions}
        {source : Source σ}
      {r : Rel} (hsrc : Provides read rem bufferSize file source)
        (hf : 2 * file.nodes.length + 1 < fuel)
      (h : storeExternalIndex read bufferSize fuel o.metadata o.usearchOptions o.dim
        file.nodes.length file.header
        source file.size = .done r) : BuiltFrom o file.nodes r

def indexesFrom (o : IndexOptions) (nodes : List (List UInt8)) : System Rel :=
  ⟨BuiltFrom o nodes, IndexStep⟩

variable {o : IndexOptions} {nodes : List (List UInt8)} {r : Rel}

theorem BuiltFrom.node_bytes (h : BuiltFrom o nodes r) :
    ∀ node ∈ nodes, FitsFreshPage (o.nodeBytes (levelFromNode node)) := by
  cases h with
  | @stored σ read rem bufferSize fuel file source _ hsrc hf h =>
    intro node hn
    have hsize : node.length = o.nodeBytes (levelFromNode node) := (file.wellFormed node hn).size_eq
    rw [← hsize]
    exact file.fits node hn

theorem storedHeader_vectorDim (o : IndexOptions) (n : ℕ) (uh : UsearchHeader) :
    (storedHeader o.usearchOptions n uh).vectorDim = o.dim := by
  by_cases h : o.metricKind = .hamming
  · simp [storedHeader, IndexOptions.usearchOptions, h, hammingWordBits]
  · simp [storedHeader, IndexOptions.usearchOptions, h]

theorem step_vectorDim {r r' : Rel} (hr : IndexChain r) (h : IndexStep r r') :
    r'.header.vectorDim = r.header.vectorDim := by
  cases h with
  | @insert md add st h =>
    obtain ⟨grown, slot, st0, st1, st2, hsteps⟩ := insertWork_steps hr h
    have hrest : ∀ rec ∈ (List.range st.ed.stateSize).map fun i =>
        (⟨none, statePages st.ed (some i)⟩ : WalRecord), rec.header = none := by simp
    have hheader : (finishInsert r st).header = st.hdr := applyRecord_header hrest _
    rw [hheader, hsteps.done.hdr_eq]
  | abort h => rfl
  | bulkDelete callback blocks h => rfl

theorem reached_index (h : Reachable (indexesFrom o nodes) r) :
    IndexChain r ∧ r.header.vectorDim = o.dim := by
  refine h.invariant (fun r => IndexChain r ∧ r.header.vectorDim = o.dim) ?_ ?_
  · rintro r (hb : BuiltFrom o nodes r)
    cases hb with
    | @stored σ read rem bufferSize fuel file source _ hsrc hf h =>
      refine ⟨built_chain (.stored hsrc (le_refl _) hf h), ?_⟩
      obtain ⟨t, uh, -, -, rfl⟩ := storeExternalIndexWithin_done hsrc (le_refl _) hf h
      exact storedHeader_vectorDim o file.nodes.length uh
  · rintro r r' ⟨hr, hdim⟩ hs
    exact ⟨step_chain hr hs, (step_vectorDim hr hs).trans hdim⟩

theorem reached_node_bytes (h : Reachable (indexesFrom o nodes) r) :
    ∀ node ∈ nodes, FitsFreshPage (o.nodeBytes (levelFromNode node)) := by
  refine h.invariant (fun _ => ∀ node ∈ nodes, FitsFreshPage (o.nodeBytes (levelFromNode node))) ?_
    fun _ _ hr _ => hr
  exact fun _ hb => BuiltFrom.node_bytes hb

def FourByteScalars (o : IndexOptions) : Prop :=
  o.pq.isSome = true ∨ o.metricKind = .hamming ∨ o.scalarKind = .f32

def insertVectorBytes (o : IndexOptions) : ℕ :=
  if o.pq.isSome then o.usearchOptions.numSubvectors else o.dim * 4

theorem newTuple_size (hdim : r.header.vectorDim = o.dim) (level : ℕ) :
    (newTuple o.metadata r level).size = 10 + (4 + 12 * o.m) + level *
      (4 + 6 * o.m) + insertVectorBytes o := by
  simp only [newTuple, usearchNodeBytes, nodeHeadBytes, IndexOptions.metadata, hdim,
    Nat.mul_comm level]
  rfl

theorem vectorBytes_agree_iff (o : IndexOptions) : insertVectorBytes o = o.vectorBytes ↔
      FourByteScalars o := by
  have hpos := o.dim_pos
  by_cases hpq : o.pq.isSome = true
  · refine iff_of_true ?_ (.inl hpq)
    simp [insertVectorBytes, IndexOptions.vectorBytes, vectorBytes, IndexOptions.metadata, hpq,
      IndexOptions.usearchOptions]
  by_cases hham : o.metricKind = .hamming
  · refine iff_of_true ?_ (.inr (.inl hham))
    simp [insertVectorBytes, IndexOptions.vectorBytes, vectorBytes,
      IndexOptions.metadata, hpq, hham, IndexOptions.usearchOptions, bitsPerScalar]
    omega
  -- the scalars of the column are stored in the kind that the options name
  have hbytes : o.vectorBytes = o.dim * bitsPerScalar o.scalarKind / 8 := by
    simp [IndexOptions.vectorBytes, vectorBytes, IndexOptions.metadata, hpq, hham,
      IndexOptions.usearchOptions]
  rw [insertVectorBytes, if_neg hpq, hbytes, FourByteScalars]
  simp only [hpq, hham, false_or]
  cases o.scalarKind <;> simp [bitsPerScalar] <;> omega

theorem newTuple_size_eq_iff (hdim : r.header.vectorDim = o.dim) (level : ℕ) :
    (newTuple o.metadata r level).size = o.nodeBytes level ↔ FourByteScalars o := by
  rw [← vectorBytes_agree_iff, newTuple_size hdim, nodeBytes_eq]
  omega

theorem leNat_replicate_zero (n : ℕ) : leNat (List.replicate n 0) = 0 := by
  induction n with
  | zero => rfl
  | succ n ih =>
    rw [List.replicate_succ, leNat, ih]
    rfl

theorem blankNode_count (o : IndexOptions) : neighborsCount o.metadata (blankNode o 0) 0 = 0 := by
  have hhead := slice_append_right 2 4 (leBytes 8 0)
    (leBytes 2 0 ++ List.replicate (o.nodeBytes 0 - nodeHeadBytes) 0)
  have hlevel :=
    slice_append_right 0 4 (leBytes 2 0) (List.replicate (o.nodeBytes 0 - nodeHeadBytes) 0)
  rw [leBytes_length] at hhead hlevel
  rw [neighborsCount, neighborsOffset, nodeHeadBytes, blankNode, hhead, hlevel, slice,
    List.drop_zero, List.take_replicate, leNat_replicate_zero]

theorem blankNode_wellFormed (o : IndexOptions) :
    WellFormedNode o.metadata o.usearchOptions.dimensions (blankNode o 0) where
  size_eq := blankNode_sized o (by decide)
  lists_fit := by
    intro level hlevel
    rw [blankNode_level o (by decide)] at hlevel
    obtain rfl := Nat.le_zero.mp hlevel
    rw [blankNode_count]
    exact Nat.le_add_right _ _

theorem blankNode_length (o : IndexOptions) : (blankNode o 0).length = o.nodeBytes 0 := by
  rw [(blankNode_wellFormed o).size_eq, nodeTupleSize_options, blankNode_level o (by decide)]

theorem blankNode_slots (o : IndexOptions) : ∀ node ∈ [blankNode o 0], ∀ l ≤ levelFromNode node,
    ∀ j < neighborsCount o.metadata node l, slotSeqid node (slotOffset o.metadata l j) <
      [blankNode o 0].length := by
  intro node hn l hl j hj
  obtain rfl := List.mem_singleton.mp hn
  rw [blankNode_level o (by decide)] at hl
  obtain rfl := Nat.le_zero.mp hl
  rw [blankNode_count] at hj
  exact absurd hj (Nat.not_lt_zero j)

def blankFile (o : IndexOptions) (hfits : FitsFreshPage (o.nodeBytes 0)) :
    UsearchFile o.metadata o.usearchOptions.dimensions where
  header := ⟨0, []⟩
  nodes := [blankNode o 0]
  wellFormed := List.forall_mem_singleton.mpr (blankNode_wellFormed o)
  fits := List.forall_mem_singleton.mpr ((blankNode_length o).symm ▸ hfits)
  slots_lt := blankNode_slots o
  entry_lt := Nat.zero_lt_one

theorem codebookPageCount_le {dim : ℕ} (h : dim ≤ HNSW_MAX_DIM) : codebookPageCount dim ≤ 1000 := by
  simp only [codebookPageCount, HNSW_MAX_DIM, BLCKSZ] at h ⊢
  omega

theorem blank_build (hfits : FitsFreshPage (o.nodeBytes 0)) :
    ∃ r, BuiltFrom o [blankNode o 0] r ∧ r.pages.length + 1 < InvalidBlockNumber := by
  have hcodebook : (if o.usearchOptions.pq then codebookPageCount o.dim else 0) ≤ 1000 := by
    split_ifs
    · exact codebookPageCount_le o.dim_le
    · omega
  have hinv : InvalidBlockNumber = 4294967295 := rfl
  have hnodes : (blankFile o hfits).nodes.length = 1 := rfl
  have hlevels : ∀ node ∈ (blankFile o hfits).nodes, levelFromNode node < 100 := by
    refine List.forall_mem_singleton.mpr ?_
    rw [blankNode_level o (by decide)]
    decide
  have hsrc : @Provides _ (List UInt8) o.metadata readBytes id (2 * BLCKSZ + 1) (blankFile o hfits)
      (.mapped (blankFile o hfits).body) := rfl
  have hfuel : 2 * (blankFile o hfits).nodes.length + 1 < 4 := by omega
  have hroom :
      (if o.usearchOptions.pq then codebookPageCount o.dim else 0) +
      (blankFile o hfits).nodes.length <
      InvalidBlockNumber := by omega
  obtain ⟨r, hr, hlen⟩ := storeExternalIndex_total hsrc hfuel hlevels hroom
  exact ⟨r, .stored hsrc hfuel hr, by omega⟩

/-- In every index that a build over at least one row leads to: for every level an
    insert reserves what the build gives a node of the level, and at the level of a
    node that the build stored it does not fail for lack of space. -/
def InsertsAgree (o : IndexOptions) : Prop :=
  ∀ nodes r, Reachable (indexesFrom o nodes) r →
    (∀ level, (newTuple o.metadata r level).size = o.nodeBytes level) ∧
    ∀ node ∈ nodes, prepareIndexTuple o.metadata r.header.numVectors (levelFromNode node)
      ⟨r.pages, r.header, extraDirtiedNew⟩ ≠ .fault couldNotAddItem

theorem narrow_fits (h : ¬ FourByteScalars o) : FitsFreshPage (o.nodeBytes 0) := by
  simp only [FourByteScalars, not_or] at h
  obtain ⟨hpq, hham, hkind⟩ := h
  have hbytes : o.vectorBytes = o.dim * bitsPerScalar o.scalarKind / 8 := by
    simp [IndexOptions.vectorBytes, vectorBytes, IndexOptions.metadata, hpq, hham,
      IndexOptions.usearchOptions]
  have hbits : bitsPerScalar o.scalarKind ≤ 16 := by
    have hsupported := o.quant_supported
    cases hk : o.scalarKind with
    | f32 => exact absurd hk hkind
    | f64 =>
      rw [hk] at hsupported
      cases hq : o.quantBits <;> rw [hq] at hsupported <;> simp [hnswGetScalarKind] at hsupported
    | f16 => decide
    | i8 => decide
    | b1 => decide
  have hm := o.m_le
  have hmul : o.dim * bitsPerScalar o.scalarKind ≤ 2000 * 16 := Nat.mul_le_mul o.dim_le hbits
  have hsize : o.nodeBytes 0 ≤ 5550 := by
    rw [nodeBytes_eq, hbytes]
    simp only [HNSW_MAX_M] at hm
    omega
  simp only [FitsFreshPage, sizeOfPageHeaderData, sizeofItemIdData, sizeofHnswIndexTuple,
    BLCKSZ, maxAlign, sizeofHnswIndexPageSpecialBlock]
  omega

/-- Inserts agree with builds exactly if there is a codebook, the distance is the
    Hamming distance or vectors are stored with four bytes for each scalar. -/
theorem insertsAgree_iff (o : IndexOptions) :
    InsertsAgree o ↔ o.pq.isSome = true ∨ o.metricKind = .hamming ∨ o.scalarKind = .f32 := by
  constructor
  · intro h
    by_contra hnarrow
    obtain ⟨r, hbuilt, -⟩ := blank_build (narrow_fits hnarrow)
    have hreached : Reachable (indexesFrom o [blankNode o 0]) r := .start hbuilt
    exact hnarrow ((newTuple_size_eq_iff (reached_index hreached).2 0).mp ((h _ r hreached).1 0))
  · intro hwide nodes r hreached
    obtain ⟨hchain, hdim⟩ := reached_index hreached
    have hsize : ∀ level, (newTuple o.metadata r level).size = o.nodeBytes level :=
      fun level => (newTuple_size_eq_iff hdim level).mpr hwide
    refine ⟨hsize, fun node hn hrefused => ?_⟩
    have hunfit := ((prepareIndexTuple_refused_iff hchain _ _).mp hrefused).1
    rw [hsize] at hunfit
    exact hunfit (reached_node_bytes hreached node hn)

def halfPrecision : IndexOptions :=
  { largestVectors with quantBits := .bits16, scalarKind := .f16, quant_supported := rfl }

/-- The build stores a node of 4206 bytes. An insert at its level reserves 8206, and
    fails because no page takes them. -/
theorem halfPrecision_insert_refused :
    halfPrecision.nodeBytes 0 = 4206 ∧ ∃ r, BuiltFrom halfPrecision [blankNode halfPrecision 0] r ∧
      levelFromNode (blankNode halfPrecision 0) = 0 ∧
        (newTuple halfPrecision.metadata r 0).size = 8206 ∧
      prepareIndexTuple halfPrecision.metadata r.header.numVectors 0
        ⟨r.pages, r.header, extraDirtiedNew⟩ =
        .fault couldNotAddItem ∧ ¬ InsertsAgree halfPrecision := by
  have hbytes : halfPrecision.nodeBytes 0 = 4206 := by decide
  obtain ⟨r, hbuilt, hlen⟩ := @blank_build halfPrecision (by rw [hbytes]; decide)
  have hlevel := blankNode_level halfPrecision (show 0 < 256 ^ 2 by decide)
  have hreached : Reachable (indexesFrom halfPrecision [blankNode halfPrecision 0]) r :=
    .start hbuilt
  obtain ⟨hchain, hdim⟩ := reached_index hreached
  have hsize : (newTuple halfPrecision.metadata r 0).size = 8206 := newTuple_size hdim 0
  have hrefused := (prepareIndexTuple_refused_iff hchain halfPrecision.metadata 0).mpr
    ⟨by rw [hsize]; decide, hlen⟩
  refine ⟨hbytes, r, hbuilt, hlevel, hsize, hrefused, fun hagree => ?_⟩
  have hnot := (hagree _ r hreached).2 _ (List.mem_singleton.mpr rfl)
  rw [hlevel] at hnot
  exact hnot hrefused

end Lantern.NodeSizes
