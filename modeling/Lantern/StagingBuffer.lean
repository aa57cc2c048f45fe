import Lantern.StoreVisits

set_option autoImplicit false

/-!
# The staging buffer of the node store

`StoreExternalIndexNodes` builds each item in a buffer of one block before it goes onto
a page. The size of a node follows from the index options and the level of the node, and
nothing bounds it by the block size.
-/
namespace Lantern.StagingBuffer
open FuelLoop ByteStrings NodeLayout PageLayout IndexRelation PageChain StoreNodes StoreVisits

def HNSW_MAX_DIM : ℕ := 2000
def HNSW_MAX_M : ℕ := 128

inductive QuantBits where
  | unset | bits1 | bits2 | bits4 | bits8 | bits16 | bits32
  deriving DecidableEq, Repr

def hnswGetScalarKind : QuantBits → Except String ScalarKind
  | .bits32 | .unset => .ok .f32
  | .bits16 => .ok .f16
  | .bits8 => .ok .i8
  | .bits4 | .bits2 => .error "unimplemented quantization"
  | .bits1 => .ok .b1

structure PqCodebook (dim : ℕ) where
  numCentroids : ℕ
  numSubvectors : ℕ
  centroids_pos : 1 ≤ numCentroids
  centroids_le : numCentroids ≤ 256
  subvectors_pos : 1 ≤ numSubvectors
  subvectors_le : numSubvectors ≤ dim

structure IndexOptions where
  dim : ℕ
  m : ℕ
  efConstruction : ℕ
  ef : ℕ
  metricKind : MetricKind
  quantBits : QuantBits
  scalarKind : ScalarKind
  pq : Option (PqCodebook dim)
  dim_pos : 1 ≤ dim
  dim_le : dim ≤ HNSW_MAX_DIM
  m_ge : 2 ≤ m
  m_le : m ≤ HNSW_MAX_M
  quant_supported : hnswGetScalarKind quantBits = .ok scalarKind

def IndexOptions.usearchOptions (o : IndexOptions) : UsearchInitOptions where
  metricKind := o.metricKind
  quantization := if o.metricKind = .hamming then .b1 else o.scalarKind
  dimensions := if o.metricKind = .hamming then o.dim * 32 else o.dim
  connectivity := o.m
  expansionAdd := o.efConstruction
  expansionSearch := o.ef
  pq := o.pq.isSome
  numCentroids := (o.pq.map (·.numCentroids)).getD 0
  numSubvectors := (o.pq.map (·.numSubvectors)).getD 0

def IndexOptions.metadata (o : IndexOptions) : Metadata where
  neighborsBytes := 4 + 6 * o.m
  neighborsBaseBytes := 4 + 12 * o.m
  initOptions := o.usearchOptions

def IndexOptions.vectorBytes (o : IndexOptions) : ℕ :=
  NodeLayout.vectorBytes o.metadata o.usearchOptions.dimensions

def IndexOptions.nodeBytes (o : IndexOptions) (level : ℕ) : ℕ :=
  nodeSizeBytes o.metadata level + o.vectorBytes

theorem nodeBytes_eq (o : IndexOptions) (level : ℕ) :
    o.nodeBytes level = 10 + (4 + 12 * o.m) + level * (4 + 6 * o.m) + o.vectorBytes := by
  simp only [IndexOptions.nodeBytes, nodeSizeBytes, nodeHeadBytes,
    IndexOptions.metadata, Nat.mul_comm]

theorem nodeBytes_mono (o : IndexOptions) {a b : ℕ} (h : a ≤ b) :
    o.nodeBytes a ≤ o.nodeBytes b := by
  have hmul : a * (4 + 6 * o.m) ≤ b * (4 + 6 * o.m) := Nat.mul_le_mul_right _ h
  rw [nodeBytes_eq, nodeBytes_eq]
  omega

theorem nodeTupleSize_options (o : IndexOptions) (node : List UInt8) :
    nodeTupleSize node o.usearchOptions.dimensions o.metadata = o.nodeBytes
      (levelFromNode node) := rfl

section Runs
variable {md : Metadata} {dim room bufferSize : ℕ} {data node rest : List UInt8} {s t : StoreState}

def WellSized (md : Metadata) (dim : ℕ) (node : List UInt8) : Prop :=
  node.length = nodeTupleSize node dim md

theorem WellSized.head_le (h : WellSized md dim node) : 10 ≤ node.length := by
  rw [WellSized] at h
  rw [h]
  exact nodeTupleSize_pos md dim node

theorem WellSized.size_append (h : WellSized md dim node) (rest : List UInt8) :
    nodeTupleSize (node ++ rest) dim md = node.length := by
  rw [nodeTupleSize_append md dim node rest h.head_le, ← h]

theorem WellSized.headed (h : WellSized md dim node) (rest : List UInt8) :
    nodeHeadBytes ≤ (node ++ rest).length := by
  have := h.head_le
  rw [List.length_append, nodeHeadBytes]
  omega

theorem stageNode_oversize (hn : WellSized md dim node)
    (hsize : BLCKSZ < sizeofHnswIndexTuple + node.length) :
    stageNode (node ++ rest) (nodeTupleSize (node ++ rest) dim md) = .fault .writePastBuffer := by
  rw [hn.size_append]
  exact if_pos hsize

structure Extends (nodes : List (List UInt8)) (s t : StoreState) : Prop where
  ready : Ready t
  page : PageInHand t
  numbered : t.nodeId = s.nodeId + nodes.length
  block : nodes ≠ [] ∨ s.lastBlock ≠ InvalidBlockNumber → t.lastBlock ≠ InvalidBlockNumber
  pointers : ∀ j < s.nodeId, t.itemPointers j = s.itemPointers j
  kept : ∀ tid u, tupleAt (closePage s).pages tid = some u →
    tupleAt (closePage t).pages tid = some u
  stored : ∀ i node, nodes[i]? = some node →
    tupleAt (closePage t).pages (t.itemPointers (s.nodeId + i)) =
    some ⟨s.nodeId + i, node.length, node⟩

theorem Extends.nil (hs : Ready s) (hp : PageInHand s) : Extends [] s s where
  ready := hs
  page := hp
  numbered := rfl
  block := fun h => h.resolve_left fun hne => hne rfl
  pointers := fun _ _ => rfl
  kept := fun _ _ h => h
  stored := fun _ _ h => by simp at h

theorem Extends.cons {nodes : List (List UInt8)} {t u : StoreState} (hn : Storable md dim node)
    (hs : Ready s) (h : addNode md dim s node = .done t) (hu : Extends nodes t u) :
    Extends (node :: nodes) s u := by
  obtain ⟨-, -, hlt, hid⟩ := addNode_ready hn hs h
  obtain ⟨off, hg, hip⟩ := addNode_grown hn hs h
  have hb := hs.closed_range
  refine ⟨hu.ready, hu.page, ?_, fun _ => hu.block (.inr hlt), fun j hj =>
    ?_, fun tid v hv => ?_, ?_⟩
  · rw [hu.numbered, hid, List.length_cons]
    omega
  · rw [hu.pointers j (by omega), hip, Function.update_of_ne (by omega)]
  · exact hu.kept tid v (hg.tupleAt_old hv)
  · intro i n hi
    cases i with
    | zero =>
      cases hi
      rw [Nat.add_zero, hu.pointers s.nodeId (by omega), hip, Function.update_self]
      exact hu.kept _ _ (hg.tupleAt_new hb)
    | succ i =>
      have hstored := hu.stored i n hi
      rw [hid, Nat.add_assoc, Nat.add_comm 1 i] at hstored
      exact hstored

theorem ends_nodes {nodes : List (List UInt8)} (hn : ∀ node ∈ nodes, WellSized md dim node)
    {w : ℕ} {s : StoreState} (hs : Ready s) (hp : PageInHand s) (hd : data.drop w = nodes.flatten)
    (hsize : bufferSize = w + nodes.flatten.length) (hroom : s.nodeId + nodes.length ≤ room) :
    (∃ t, EndsWith md dim room bufferSize data ⟨s, w⟩ (.done ⟨t, bufferSize⟩) ∧ Extends nodes s t) ∨
      (∃ text, EndsWith md dim room bufferSize data ⟨s, w⟩ (.fault (.elog text))) ∨
      EndsWith md dim room bufferSize data ⟨s, w⟩ (.fault .writePastBuffer) ∧
        ∃ node ∈ nodes, levelFromNode node < 100 ∧ BLCKSZ < sizeofHnswIndexTuple + node.length := by
  induction nodes generalizing w s with
  | nil =>
    obtain rfl : bufferSize = w := hsize
    exact .inl ⟨s, .exit (by simp), .nil hs hp⟩
  | cons node nodes ih =>
    have hnode := hn node List.mem_cons_self
    have hten := hnode.head_le
    rw [List.flatten_cons] at hd hsize
    rw [List.length_append] at hsize
    rw [List.length_cons] at hroom
    have hw : w < bufferSize := by omega
    have hhead : nodeHeadBytes ≤ (data.drop w).length := hd ▸ hnode.headed _
    have hlevelEq : levelFromNode (data.drop w) = levelFromNode node :=
      hd ▸ levelFromNode_append node _ hten
    have hsizeEq : nodeTupleSize (data.drop w) dim md = node.length := hd ▸ hnode.size_append _
    by_cases hlevel : 100 ≤ levelFromNode node
    · exact .inr (.inl (ends_levelTooLarge hw hhead hs (hlevelEq ▸ hlevel)))
    have hlt : levelFromNode (data.drop w) < 100 := by omega
    by_cases hbig : BLCKSZ < sizeofHnswIndexTuple + node.length
    · rcases ends_staging hw hhead hs hlt (hd ▸ stageNode_oversize hnode hbig) with ⟨-, h⟩ | h
      · exact .inr (.inl ⟨_, h⟩)
      · exact .inr (.inr ⟨h, node, List.mem_cons_self, by omega, hbig⟩)
    by_cases hfits : FitsFreshPage node.length
    · have hstorable : Storable md dim node := ⟨hnode, hfits⟩
      obtain ⟨hdone, hfault⟩ := @visit_storable md dim room _ _ _ _ _ _ hw hstorable hd hs
      rcases addNode_outcome hstorable hs with ⟨t, ht⟩ | ⟨text, ht⟩
      rotate_left
      · exact .inr (.inl ⟨text, hfault _ ht⟩)
      · have hdrop : data.drop (w + node.length) = nodes.flatten := by
          rw [← List.drop_drop, hd, List.drop_left]
        obtain ⟨hready, -, -, hid⟩ := addNode_ready hstorable hs ht
        have hleads := (hdone t ht).1 (by omega)
        rcases ih (fun n hn' => hn n (List.mem_cons_of_mem _ hn')) hready
          (addNode_page hstorable hs hp ht) hdrop (by omega) (by omega) with
            ⟨u, hu, hext⟩ | ⟨text, hu⟩ | ⟨hu, n, hmem, hover⟩
        · exact .inl ⟨u, hleads.ends hu, .cons hstorable hs ht hext⟩
        · exact .inr (.inl ⟨text, hleads.ends hu⟩)
        · exact .inr (.inr ⟨hleads.ends hu, n, List.mem_cons_of_mem _ hmem, hover⟩)
    · refine .inr (.inl ⟨_, ends_unfit hw hhead hs hp hlt ?_ (by omega) (hsizeEq ▸ hfits)⟩)
      rw [hsizeEq, hd, List.length_append]
      omega

end Runs

structure StoreStart where
  pages : List Page
  lastDataBlock : ℕ
  firstNodeIndex : ℕ
  itemPointers : ℕ → ItemPointerData
  in_range : lastDataBlock ≠ InvalidBlockNumber → 1 ≤ lastDataBlock ∧ lastDataBlock ≤ pages.length
  formatted : lastDataBlock ≠ InvalidBlockNumber →
    (getPage pages lastDataBlock).pdSpecial = dataPageSpecial

def IndexOptions.store (o : IndexOptions) (start : StoreStart)
    (nodes : List (List UInt8)) (fuel : ℕ) :
    Outcome Fault Stored :=
  storeExternalIndexNodes o.metadata o.usearchOptions.dimensions
    (start.firstNodeIndex + nodes.length) fuel start.pages start.lastDataBlock nodes.flatten
    nodes.flatten.length start.firstNodeIndex start.itemPointers

def AllStored (start : StoreStart) (nodes : List (List UInt8)) (r : Stored) : Prop :=
  r.nextNodeIndex = start.firstNodeIndex + nodes.length ∧ r.bytesWritten = nodes.flatten.length ∧
    ∀ i node, nodes[i]? = some node → tupleAt r.pages (r.itemPointers (start.firstNodeIndex + i)) =
      some ⟨start.firstNodeIndex + i, node.length, node⟩

/-- The call returns with every node stored or raises an error, and nothing is
    written past the buffer. -/
def StoresOrErrors (o : IndexOptions) (start : StoreStart) (nodes : List (List UInt8)) : Prop :=
  (∃ n, ∀ fuel ≥ n, (∃ r, o.store start nodes fuel = .done r ∧ AllStored start nodes r) ∨
    ∃ text, o.store start nodes fuel = .fault (.elog text)) ∧
  ∀ fuel, o.store start nodes fuel ≠ .fault .writePastBuffer

/-- The nodes of a call: of the size that follows from the options, of levels up to
    a bound. There is at least one, or the call has a page to start from. -/
structure NodesFor (o : IndexOptions) (maxLevel : ℕ) (start : StoreStart)
    (nodes : List (List UInt8)) : Prop where
  sized : ∀ node ∈ nodes, WellSized o.metadata o.usearchOptions.dimensions node
  levels : ∀ node ∈ nodes, levelFromNode node ≤ maxLevel
  nonempty : nodes ≠ [] ∨ start.lastDataBlock ≠ InvalidBlockNumber

section Calls
variable {o : IndexOptions} {maxLevel : ℕ} {start : StoreStart} {nodes : List (List UInt8)}

def StoreStart.opened (start : StoreStart) : StoreState :=
  openPage start.pages start.lastDataBlock start.firstNodeIndex start.itemPointers

theorem opened_ready (start : StoreStart) : Ready start.opened := .openPage start.in_range

theorem opened_page (start : StoreStart) : PageInHand start.opened := start.formatted

theorem finishStore_all {t : StoreState} (hnodes : NodesFor o maxLevel start nodes)
    (h : Extends nodes start.opened t) :
    ∃ r, finishStore ⟨t, nodes.flatten.length⟩ = .done r ∧ AllStored start nodes r := by
  have hl := h.block hnodes.nonempty
  have hb : t.buf = some t.lastBlock := by rw [h.ready.buf_eq, if_neg hl]
  have hclose := closePage_of_buf hb
  have hpointers : (closePage t).itemPointers = t.itemPointers := by rw [hclose]
  have hid : (closePage t).nodeId = t.nodeId := by rw [hclose]
  refine ⟨_, by rw [finishStore, if_neg (by simp [hb])], ?_, rfl, fun i node hi => ?_⟩
  · exact hid.trans h.numbered
  · change tupleAt (closePage t).pages ((closePage t).itemPointers _) = _
    rw [hpointers]
    exact h.stored i node hi

theorem store_of_ends {r : Outcome Fault StoreLoop}
    (h : EndsWith o.metadata o.usearchOptions.dimensions (start.firstNodeIndex + nodes.length)
      nodes.flatten.length nodes.flatten ⟨start.opened, 0⟩ r) :
    (∃ n, ∀ fuel ≥ n, o.store start nodes fuel = r.bind finishStore) ∧
      ∀ fuel, o.store start nodes fuel = .unfinished ∨
        o.store start nodes fuel = r.bind finishStore := by
  constructor
  · obtain ⟨n, hn⟩ := h.loop_eq
    exact ⟨n, fun fuel hf => congrArg (Outcome.bind · finishStore) (hn fuel hf)⟩
  · intro fuel
    rcases h.loop_cases fuel with hr | hr
    · exact .inl (congrArg (Outcome.bind · finishStore) hr)
    · exact .inr (congrArg (Outcome.bind · finishStore) hr)

theorem storesOrErrors_of_small (hnodes : NodesFor o maxLevel start nodes)
    (hsmall : ∀ node ∈ nodes, levelFromNode node < 100 →
      sizeofHnswIndexTuple + node.length ≤ BLCKSZ) :
    StoresOrErrors o start nodes := by
  have hrun :=
    @ends_nodes _ _ (start.firstNodeIndex + nodes.length) nodes.flatten.length nodes.flatten
    nodes hnodes.sized 0 start.opened (opened_ready start) (opened_page start) rfl
      (Nat.zero_add _).symm
    (le_refl _)
  rcases hrun with ⟨t, hends, hext⟩ | ⟨text, hends⟩ | ⟨-, node, hmem, hlevel, hbig⟩
  · obtain ⟨r, hr, hall⟩ := finishStore_all hnodes hext
    obtain ⟨⟨n, hn⟩, hany⟩ := store_of_ends hends
    refine ⟨⟨n, fun fuel hf => .inl ⟨r, (hn fuel hf).trans hr, hall⟩⟩, fun fuel hover => ?_⟩
    rcases hany fuel with h | h
    · rw [h] at hover
      cases hover
    · rw [h, Outcome.bind_done, hr] at hover
      cases hover
  · obtain ⟨⟨n, hn⟩, hany⟩ := store_of_ends hends
    refine ⟨⟨n, fun fuel hf => .inr ⟨text, hn fuel hf⟩⟩, fun fuel hover => ?_⟩
    rcases hany fuel with h | h
    · rw [h] at hover
      cases hover
    · rw [h, Outcome.bind_fault] at hover
      cases hover
  · exact absurd (hsmall node hmem hlevel) (by omega)

def emptyStart : StoreStart where
  pages := []
  lastDataBlock := InvalidBlockNumber
  firstNodeIndex := 0
  itemPointers := fun _ => ⟨0, 0⟩
  in_range := fun h => absurd rfl h
  formatted := fun h => absurd rfl h

theorem oversize_overruns {node : List UInt8}
    (hn : WellSized o.metadata o.usearchOptions.dimensions node)
    (hlevel : levelFromNode node < 100) (hsize : BLCKSZ < sizeofHnswIndexTuple + node.length) :
    ¬ StoresOrErrors o emptyStart [node] := by
  have hten := hn.head_le
  have hflat : [node].flatten.drop 0 = node ++ [] := rfl
  have hpos : 0 < [node].flatten.length := by
    rw [← List.drop_zero (l := [node].flatten), hflat, List.append_nil]
    omega
  rcases @ends_staging o.metadata o.usearchOptions.dimensions
    (emptyStart.firstNodeIndex + [node].length) [node].flatten.length 0 [node].flatten
    emptyStart.opened .writePastBuffer hpos (hflat ▸ hn.headed []) (opened_ready emptyStart)
    (by rwa [hflat, levelFromNode_append node [] hten]) (hflat ▸ stageNode_oversize hn hsize) with
    ⟨hfull, -⟩ | hends
  · exact absurd hfull (by decide)
  · obtain ⟨n, hfuel⟩ := (store_of_ends hends).1
    exact fun h => h.2 n (hfuel n (le_refl n))

def blankNode (o : IndexOptions) (level : ℕ) : List UInt8 :=
  leBytes 8 0 ++ (leBytes 2 level ++ List.replicate (o.nodeBytes level - nodeHeadBytes) 0)

theorem blankNode_level (o : IndexOptions) {level : ℕ} (h : level < 256 ^ 2) :
    levelFromNode (blankNode o level) = level := by
  have hslice : slice 8 2 (blankNode o level) = leBytes 2 level := by
    have hright := slice_append_right 0 2 (leBytes 8 0)
      (leBytes 2 level ++ List.replicate (o.nodeBytes level - nodeHeadBytes) 0)
    rw [leBytes_length] at hright
    have hwhole := slice_whole (leBytes 2 level)
    rw [leBytes_length] at hwhole
    rw [blankNode, hright, slice_append_left (by simp), hwhole]
  rw [levelFromNode, hslice, leNat_leBytes_of_lt h]

theorem blankNode_sized (o : IndexOptions) {level : ℕ} (h : level < 256 ^ 2) :
    WellSized o.metadata o.usearchOptions.dimensions (blankNode o level) := by
  have hge : nodeHeadBytes ≤ o.nodeBytes level := by
    rw [nodeBytes_eq, nodeHeadBytes]
    omega
  rw [WellSized, nodeTupleSize_options, blankNode_level o h]
  simp only [blankNode, List.length_append, leBytes_length, List.length_replicate,
    nodeHeadBytes] at hge ⊢
  omega

end Calls

/-- With the options, and for nodes of levels up to a bound, every call stores all
    nodes or raises an error exactly if the largest node fits the staging buffer.
    Levels from 100 on are refused before the buffer is used. -/
theorem stores_or_errors_iff (o : IndexOptions) (maxLevel : ℕ) :
    (∀ start nodes, NodesFor o maxLevel start nodes → StoresOrErrors o start nodes) ↔
      sizeofHnswIndexTuple + o.nodeBytes (min maxLevel 99) ≤ BLCKSZ := by
  constructor
  · intro h
    by_contra hbig
    have hrange : min maxLevel 99 < 256 ^ 2 := by omega
    have hsized := blankNode_sized o hrange
    have hlevel := blankNode_level o hrange
    have hlen : (blankNode o (min maxLevel 99)).length = o.nodeBytes (min maxLevel 99) := by
      rw [hsized, nodeTupleSize_options, hlevel]
    have hnodes : NodesFor o maxLevel emptyStart [blankNode o (min maxLevel 99)] :=
      ⟨by simpa using hsized, by simp [hlevel], .inl (by simp)⟩
    exact oversize_overruns hsized (by omega) (by omega) (h emptyStart _ hnodes)
  · intro hsmall start nodes hnodes
    refine storesOrErrors_of_small hnodes fun node hmem hlevel => ?_
    have hmax := hnodes.levels node hmem
    have hlen : node.length = o.nodeBytes (levelFromNode node) := hnodes.sized node hmem
    have hmono := nodeBytes_mono o (show levelFromNode node ≤ min maxLevel 99 by omega)
    omega

theorem max_dim_pos : 1 ≤ HNSW_MAX_DIM := by decide

def largestVectors : IndexOptions where
  dim := 2000
  m := 16
  efConstruction := 128
  ef := 64
  metricKind := .l2sq
  quantBits := .bits32
  scalarKind := .f32
  pq := none
  dim_pos := max_dim_pos
  dim_le := by decide
  m_ge := by decide
  m_le := by decide
  quant_supported := rfl

theorem largestVectors_overrun :
    largestVectors.nodeBytes 0 = 8206 ∧ NodesFor largestVectors 0 emptyStart
      [blankNode largestVectors 0] ∧
      ¬ StoresOrErrors largestVectors emptyStart [blankNode largestVectors 0] := by
  have hbytes : largestVectors.nodeBytes 0 = 8206 := by decide
  have hsized := blankNode_sized largestVectors (show 0 < 256 ^ 2 by decide)
  have hlevel := blankNode_level largestVectors (show 0 < 256 ^ 2 by decide)
  have hlen : (blankNode largestVectors 0).length = 8206 := by
    rw [hsized, nodeTupleSize_options, hlevel, hbytes]
  refine ⟨hbytes, ⟨by simpa using hsized, by simp [hlevel], .inl (by simp)⟩, ?_⟩
  exact oversize_overruns hsized (by omega) (by rw [hlen]; decide)

end Lantern.StagingBuffer
