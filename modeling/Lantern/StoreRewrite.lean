import Lantern.StoreStreaming

set_option autoImplicit false

/-!
# The graph stored on the pages is the graph of the file

The rewriting pass touches six-byte windows that do not overlap, so each slot
is replaced by the item pointer of the node it named and no other byte moves.
The pages are those of a build in which no clean page was dropped.
-/
namespace Lantern.StoreRewrite
open FuelLoop ByteStrings NodeLayout PageLayout IndexRelation PageChain StoreNodes StoreIndex
open StoreStreaming

def slotOffsets (md : Metadata) (node : List UInt8) (levels : ℕ) : List ℕ :=
  (List.range levels).flatMap fun l => (List.range (neighborsCount md node l)).map (slotOffset md l)

def slotImage (ips : ℕ → ItemPointerData) (slot : List UInt8) : List UInt8 :=
  itemPointerBytes (ips (leNat (slice 0 4 slot)))

theorem rewriteSlot_eq (ips : ℕ → ItemPointerData) (node : List UInt8) (off : ℕ) :
    rewriteSlot ips off node = rewriteWindow 6 (slotImage ips) node off := by
  rw [rewriteSlot, rewriteWindow, slotImage, slice_slice (by omega)]
  rfl

variable {dim levels : ℕ}

theorem mem_slotOffsets {md : Metadata} {node : List UInt8} {off : ℕ} :
    off ∈ slotOffsets md node levels ↔
      ∃ l < levels, ∃ j < neighborsCount md node l, slotOffset md l j = off := by
  simp [slotOffsets]

theorem slotOffset_bounds {md : Metadata} {l j : ℕ} {node : List UInt8}
    (h : WellFormedNode md dim node) (hl : l ≤ levelFromNode node)
    (hj : j < neighborsCount md node l) :
    neighborsOffset md l + 4 ≤ slotOffset md l j ∧
      slotOffset md l j + 6 ≤ neighborsOffset md (l + 1) := by
  have hfit := h.lists_fit l hl
  have hroom := neighborsOffset_room md l
  unfold slotOffset
  omega

theorem neighborsOffset_le_length {md : Metadata} {l : ℕ} {node : List UInt8}
    (h : WellFormedNode md dim node) (hl : l ≤ levelFromNode node) :
    neighborsOffset md (l + 1) ≤ node.length := by
  have hmono := neighborsOffset_mono md (show l + 1 ≤ levelFromNode node + 1 by omega)
  rw [h.size_eq, nodeTupleSize]
  have hend := neighborsOffset_end md (levelFromNode node)
  omega

theorem slotOffsets_pairwise {md : Metadata} {node : List UInt8} (h : WellFormedNode md dim node)
    (hl : levels ≤ levelFromNode node + 1) :
    (slotOffsets md node levels).Pairwise fun a b => a + 6 ≤ b := by
  rw [slotOffsets, List.pairwise_flatMap]
  constructor
  · intro l hmem
    rw [List.pairwise_map]
    refine List.Pairwise.imp ?_ List.pairwise_lt_range
    intro a b hab
    unfold slotOffset
    omega
  · refine List.Pairwise.imp_of_mem ?_ List.pairwise_lt_range
    intro a b ha hb hab x hx y hy
    rw [List.mem_range] at ha hb
    obtain ⟨j, hj, rfl⟩ := List.mem_map.mp hx
    obtain ⟨k, hk, rfl⟩ := List.mem_map.mp hy
    rw [List.mem_range] at hj hk
    have h1 := (slotOffset_bounds h (by omega) hj).2
    have h2 := (slotOffset_bounds h (by omega) hk).1
    have hm := neighborsOffset_mono md (show a + 1 ≤ b by omega)
    omega

theorem slotOffsets_in_range {md : Metadata} {node : List UInt8} (h : WellFormedNode md dim node)
    (hl : levels ≤ levelFromNode node + 1) :
    ∀ off ∈ slotOffsets md node levels, off + 6 ≤ node.length := by
  intro off hoff
  obtain ⟨l, hlt, j, hj, rfl⟩ := mem_slotOffsets.mp hoff
  have h1 := (slotOffset_bounds h (show l ≤ levelFromNode node by omega) hj).2
  have h2 := neighborsOffset_le_length h (show l ≤ levelFromNode node by omega)
  omega

theorem rewriteLevels_eq {md : Metadata} {node : List UInt8} (ips : ℕ → ItemPointerData)
    (h : WellFormedNode md dim node) (hl : levels ≤ levelFromNode node + 1) :
    (List.range levels).foldl (rewriteLevel md ips) node =
      (slotOffsets md node levels).foldl (rewriteWindow 6 (slotImage ips)) node := by
  induction levels with
  | zero => rfl
  | succ k ih =>
    have hspec := rewriteWindows_spec (f := slotImage ips) (fun s => itemPointerBytes_length _)
      (slotOffsets_in_range h (show k ≤ levelFromNode node + 1 by omega))
      (slotOffsets_pairwise h (show k ≤ levelFromNode node + 1 by omega))
    have hcount : neighborsCount md ((slotOffsets md node k).foldl
        (rewriteWindow 6 (slotImage ips)) node) k = neighborsCount md node k := by
      unfold neighborsCount
      refine congrArg leNat (slice_congr fun i hlo hhi => hspec.outside i fun off hoff => ?_)
      obtain ⟨l, hlt, j, hj, rfl⟩ := mem_slotOffsets.mp hoff
      have h1 := (slotOffset_bounds h (show l ≤ levelFromNode node by omega) hj).2
      have hm := neighborsOffset_mono md (show l + 1 ≤ k by omega)
      omega
    have hsucc : slotOffsets md node (k + 1) = slotOffsets md node k ++
        (List.range (neighborsCount md node k)).map (slotOffset md k) := by
      simp [slotOffsets, List.range_succ]
    rw [List.range_succ, List.foldl_append, ih (by omega), hsucc, List.foldl_append, List.foldl_map]
    simp only [List.foldl_cons, List.foldl_nil, rewriteLevel, getNodeNeighborsMut, hcount,
      rewriteSlot_eq]

theorem rewriteNode_spec {md : Metadata} {node : List UInt8} (ips : ℕ → ItemPointerData)
    (h : WellFormedNode md dim node) :
    WindowsRewritten 6 (slotImage ips) (slotOffsets md node (levelFromNode node + 1)) node
      (rewriteNode md ips node) := by
  rw [rewriteNode, rewriteLevels_eq ips h (le_refl _)]
  exact rewriteWindows_spec (fun s =>
    itemPointerBytes_length _) (slotOffsets_in_range h (le_refl _))
    (slotOffsets_pairwise h (le_refl _))

theorem rewriteRange_spec (md : Metadata) (ips : ℕ → ItemPointerData) (pages : List Page) {k : ℕ}
    (hk : k ≤ pages.length) :
    ((List.range' 1 k).foldl (fun ps b =>
      setPage ps b (rewritePage md ips (getPage ps b))) pages).length =
        pages.length ∧
    ∀ b, getPage ((List.range' 1 k).foldl
        (fun ps b => setPage ps b (rewritePage md ips (getPage ps b))) pages) b =
      if 1 ≤ b ∧ b ≤ k then rewritePage md ips (getPage pages b) else getPage pages b := by
  induction k with
  | zero => exact ⟨rfl, fun b => by rw [if_neg (by omega)]; rfl⟩
  | succ k ih =>
    obtain ⟨hlen, hget⟩ := ih (by omega)
    rw [List.range'_1_concat, List.foldl_append]
    refine ⟨by simp [hlen], fun b => ?_⟩
    simp only [List.foldl_cons, List.foldl_nil]
    by_cases hb : b = 1 + k
    · subst hb
      rw [getPage_setPage_self (by omega) (by omega), hget, if_neg (by omega), if_pos (by omega)]
    · rw [getPage_setPage_ne hb, hget]
      by_cases hle : 1 ≤ b ∧ b ≤ k
      · rw [if_pos hle, if_pos (by omega)]
      · rw [if_neg hle, if_neg (by omega)]

theorem rewritePage_sameShape (md : Metadata) (ips : ℕ → ItemPointerData) (p : Page) :
    SameShape p (rewritePage md ips p) := by
  refine ⟨rfl, rfl, ?_⟩
  simp [seqids, rewritePage, rewriteTuple, Function.comp_def]

theorem rewriteBlocks_sameShape (md : Metadata) (ips : ℕ → ItemPointerData) {pages : List Page}
    {last : ℕ} (h : last ≠ InvalidBlockNumber → last ≤ pages.length) :
    List.Forall₂ SameShape pages (rewriteBlocks md ips last pages) := by
  unfold rewriteBlocks
  split
  · exact List.forall₂_same.mpr fun p _ => .refl p
  · rename_i hl
    obtain ⟨hlen, hget⟩ := rewriteRange_spec md ips pages (h hl)
    refine sameShape_of_getPage hlen.symm fun b => ?_
    rw [hget]
    split
    · exact rewritePage_sameShape md ips _
    · exact .refl _

theorem tupleAt_rewriteBlocks (md : Metadata) (ips : ℕ → ItemPointerData) {pages : List Page}
    {last n : ℕ} (h : Chained n last (dataPages 1 pages)) (tid : ItemPointerData) :
    tupleAt (rewriteBlocks md ips last pages) tid =
      (tupleAt pages tid).map (rewriteTuple md ips) := by
  unfold rewriteBlocks
  split
  · rename_i hl
    have hnil := h.eq_nil_iff.mpr hl
    cases ht : tupleAt pages tid with
    | none => rfl
    | some t =>
      obtain ⟨h1, h2, -, h4⟩ := tupleAt_eq_some ht
      have hmem := getPage_mem_dataPages h1 h2 (by intro h0; simp [h0] at h4)
      simp [hnil] at hmem
  · rename_i hl
    obtain ⟨-, -, -, hle, -⟩ := h.lastPage hl
    obtain ⟨-, hget⟩ := rewriteRange_spec md ips pages hle
    unfold tupleAt
    rw [hget]
    by_cases hp : tid.posid = 0
    · rw [if_pos hp, if_pos hp]
      rfl
    · rw [if_neg hp, if_neg hp]
      split
      · simp [rewritePage]
      · rename_i hb
        cases ht : (getPage pages tid.block).items[tid.posid - 1]? with
        | none => rfl
        | some t =>
          have htid : tupleAt pages tid = some t := by rw [tupleAt, if_neg hp, ht]
          obtain ⟨h1, -⟩ := tupleAt_eq_some htid
          exact absurd ⟨h1, h.block_le hl htid⟩ hb

section Build
variable {σ : Type} {read : σ → ℕ → Outcome Fault (List UInt8 × σ)} {rem : σ → List UInt8}
variable {md : Metadata} {opts : UsearchInitOptions} {bufferSize : ℕ}

def Provides (read : σ → ℕ → Outcome Fault (List UInt8 × σ)) (rem : σ → List UInt8) (bufferSize : ℕ)
    (file : UsearchFile md dim) : Source σ → Prop
  | .mapped body => body = file.body
  | .socket s => Delivers read rem ∧ 2 * BLCKSZ < bufferSize ∧ rem s = file.body

def builtRel (md : Metadata) (opts : UsearchInitOptions) (n : ℕ) (t : StoreState)
    (uh : UsearchHeader) :
    Rel :=
  ⟨{ storedHeader opts n uh with lastDataBlock := t.lastBlock },
    rewriteBlocks md t.itemPointers t.lastBlock (closePage t).pages⟩

theorem storeExternalIndexWithin_eq {file : UsearchFile md opts.dimensions} {source : Source σ}
    {room fuel pgDimensions : ℕ} (hsrc : Provides read rem bufferSize file source)
    (hroom : file.nodes.length ≤ room) (hf : 2 * file.nodes.length + 1 < fuel) :
    storeExternalIndexWithin read room bufferSize fuel md opts pgDimensions file.nodes.length
        file.header source file.size =
      (addCodebookPages (if opts.pq then codebookPageCount pgDimensions else 0) []).bind
        fun pages =>
        (foldSteps (addNode md opts.dimensions) file.nodes
          (openPage pages InvalidBlockNumber 0 noItemPointers)).bind fun t =>
            (rewriteEntrySlot t.itemPointers file.header).map
              (builtRel md opts file.nodes.length t) := by
  have hpos : 0 < file.nodes.length := List.length_pos_iff.mpr file.nodes_ne_nil
  have hstored : ∀ pages, storeNodesFrom read bufferSize fuel md opts.dimensions room
      file.nodes.length file.size source pages = (foldSteps (addNode md opts.dimensions) file.nodes
        (openPage pages InvalidBlockNumber 0 noItemPointers)).map fun t =>
        loadedFrom (closePage t) := by
    intro pages
    have hmapped := @storeMapped_eq md opts.dimensions room fuel file.nodes pages file.storable
      file.nodes_ne_nil hroom (by omega)
    cases source with
    | mapped body =>
      obtain rfl : body = file.body := hsrc
      exact hmapped
    | socket s =>
      obtain ⟨hread, hB, hrem⟩ := hsrc
      rw [← hmapped]
      exact storeStreamed_eq_storeMapped hread hB file.storable file.nodes_ne_nil hrem hroom hf
  rw [storeExternalIndexWithin]
  congr 1
  funext pages
  rw [hstored pages, Outcome.bind_map]
  congr 1
  funext t
  rw [if_pos hpos, loadedFrom_closePage]
  rfl

variable {file : UsearchFile md opts.dimensions}

theorem storeExternalIndexWithin_done {source : Source σ} {room fuel pgDimensions : ℕ} {r : Rel}
    (hsrc : Provides read rem bufferSize file source) (hroom : file.nodes.length ≤ room)
    (hf : 2 * file.nodes.length + 1 < fuel)
    (h : storeExternalIndexWithin read room bufferSize fuel md opts pgDimensions file.nodes.length
      file.header source file.size = .done r) :
    ∃ t uh, Filled file.nodes t ∧ rewriteEntrySlot t.itemPointers file.header = .done uh ∧
      r = builtRel md opts file.nodes.length t uh := by
  rw [storeExternalIndexWithin_eq hsrc hroom hf] at h
  obtain ⟨pages, hpages, h⟩ := Outcome.bind_eq_done.mp h
  obtain ⟨t, ht, h⟩ := Outcome.bind_eq_done.mp h
  obtain ⟨uh, huh, rfl⟩ := Outcome.map_eq_done.mp h
  obtain ⟨hempty, -, hlen⟩ := addCodebookPages_done hpages rfl (by decide)
  exact ⟨t, uh, Filled.foldSteps file.storable hempty hlen ht, huh, rfl⟩

/-- `node'` is `node` with every slot in use replaced by the item pointer of
    the node it named. -/
structure NodeRewritten (md : Metadata) (ips : ℕ → ItemPointerData) (node node' : List UInt8) :
    Prop where
  length_eq : node'.length = node.length
  slots : ∀ l ≤ levelFromNode node, ∀ j < neighborsCount md node l,
    slotItemPointer node' (slotOffset md l j) = ips (slotSeqid node (slotOffset md l j))
  others : ∀ i, (∀ l ≤ levelFromNode node, ∀ j < neighborsCount md node l,
    ¬ (slotOffset md l j ≤ i ∧ i < slotOffset md l j + 6)) → node'[i]? = node[i]?

/-- The pages hold the graph of the file, node `i` at `ips i`. -/
structure GraphStored {dim : ℕ} (file : UsearchFile md dim) (ips : ℕ → ItemPointerData) (r : Rel) :
    Prop where
  stored : ∀ i node, file.nodes[i]? = some node →
    ∃ t, tupleAt r.pages (ips i) = some t ∧ t.seqid = i ∧ NodeRewritten md ips node t.node
  no_others : ∀ tid t, tupleAt r.pages tid = some t → t.seqid < file.nodes.length ∧
    ips t.seqid = tid
  entry : itemPointerOfBytes (leBytes 6 r.header.usearchHeader.entrySlot) =
    ips file.header.entrySlot
  header_rest : r.header.usearchHeader.rest = file.header.rest

theorem nodeRewritten_of_slots {node : List UInt8} {ips : ℕ → ItemPointerData}
    (h : WellFormedNode md dim node)
    (hips : ∀ l ≤ levelFromNode node, ∀ j < neighborsCount md node l,
      itemPointerOfBytes (itemPointerBytes (ips (slotSeqid node (slotOffset md l j)))) =
        ips (slotSeqid node (slotOffset md l j))) :
    NodeRewritten md ips node (rewriteNode md ips node) := by
  have hspec := rewriteNode_spec ips h
  refine ⟨hspec.length_eq, ?_, ?_⟩
  · intro l hl j hj
    have hmem : slotOffset md l j ∈ slotOffsets md node (levelFromNode node + 1) :=
      mem_slotOffsets.mpr ⟨l, by omega, j, hj, rfl⟩
    rw [slotItemPointer, hspec.window _ hmem, slotImage, slice_slice (by omega)]
    exact hips l hl j hj
  · intro i hi
    refine hspec.outside i fun off hoff => ?_
    obtain ⟨l, hl, j, hj, rfl⟩ := mem_slotOffsets.mp hoff
    exact hi l (by omega) j hj

theorem graphStored_of_filled {t : StoreState} {uh : UsearchHeader} (ht : Filled file.nodes t)
    (huh : rewriteEntrySlot t.itemPointers file.header = .done uh) :
    GraphStored file t.itemPointers (builtRel md opts file.nodes.length t uh) := by
  have hlen : (closePage t).pages.length < InvalidBlockNumber := by
    rw [closePage_pages_length]
    exact ht.length_lt
  have hbytes : ∀ i < file.nodes.length,
      itemPointerOfBytes (itemPointerBytes (t.itemPointers i)) = t.itemPointers i := by
    intro i hi
    exact ht.chained.itemPointer_bytes hlen
      (ht.placed.at_pointer i file.nodes[i] (List.getElem?_eq_getElem hi))
  have htuple : ∀ tid, tupleAt (builtRel md opts file.nodes.length t uh).pages tid =
      (tupleAt (closePage t).pages tid).map (rewriteTuple md t.itemPointers) :=
    tupleAt_rewriteBlocks md t.itemPointers ht.chained
  refine ⟨?_, ?_, ?_, ?_⟩
  · intro i node hi
    have hmem := List.mem_of_getElem? hi
    refine ⟨rewriteTuple md t.itemPointers ⟨i, node.length, node⟩, ?_, rfl, ?_⟩
    · rw [htuple, ht.placed.at_pointer i node hi]
      rfl
    · exact nodeRewritten_of_slots (file.wellFormed node hmem) fun l hl j hj =>
        hbytes _ (file.slots_lt node hmem l hl j hj)
  · intro tid u hu
    rw [htuple] at hu
    obtain ⟨v, hv, rfl⟩ := Option.map_eq_some_iff.mp hu
    exact ht.placed.no_others tid v hv
  · unfold rewriteEntrySlot at huh
    split at huh
    · cases huh
      have hle := leBytes_leNat (itemPointerBytes (t.itemPointers (file.header.entrySlot % 2 ^ 32)))
      rw [itemPointerBytes_length] at hle
      change itemPointerOfBytes (leBytes 6 (leNat _)) = _
      rw [hle, Nat.mod_eq_of_lt (by omega)]
      exact hbytes _ file.entry_lt
    · cases huh
  · unfold rewriteEntrySlot at huh
    split at huh
    · cases huh
      rfl
    · cases huh

theorem storeExternalIndex_total {file : UsearchFile md opts.dimensions} {source : Source σ}
    {fuel pgDimensions : ℕ} (hsrc : Provides read rem bufferSize file source)
    (hf : 2 * file.nodes.length + 1 < fuel) (hlev : ∀ node ∈ file.nodes, levelFromNode node < 100)
    (hsize : (if opts.pq then codebookPageCount pgDimensions else 0) + file.nodes.length <
      InvalidBlockNumber) :
    ∃ r, storeExternalIndex read bufferSize fuel md opts pgDimensions file.nodes.length file.header
        source file.size = .done r ∧
      r.pages.length ≤
        (if opts.pq then codebookPageCount pgDimensions else 0) + file.nodes.length := by
  have hready : ∀ pages, Ready (openPage pages InvalidBlockNumber 0 noItemPointers) :=
    fun _ => .openPage fun h => absurd rfl h
  obtain ⟨pages, hpages⟩ := @addCodebookPages_total []
    (if opts.pq then codebookPageCount pgDimensions else 0) (by simp at hsize ⊢; omega)
  obtain ⟨hempty, hplen, hlt⟩ := addCodebookPages_done hpages rfl (by decide)
  rw [List.length_nil, Nat.zero_add] at hplen
  obtain ⟨t, ht, htl⟩ := foldSteps_total file.storable hlev (hready pages) (by
    change pages.length + _ < _
    rw [hplen]
    exact hsize)
  have hentry : file.header.entrySlot < 2 ^ 32 - 1 := by
    have := file.entry_lt
    have hinv : InvalidBlockNumber = 2 ^ 32 - 1 := rfl
    omega
  rw [storeExternalIndex, storeExternalIndexWithin_eq hsrc (le_refl _) hf, hpages,
    Outcome.bind_done, ht, Outcome.bind_done, rewriteEntrySlot, if_pos hentry]
  refine ⟨_, rfl, ?_⟩
  have hfilled := Filled.foldSteps file.storable hempty hlt ht
  have hle : t.lastBlock ≠ InvalidBlockNumber → t.lastBlock ≤ (closePage t).pages.length :=
    fun hl => (hfilled.chained.lastPage hl).choose_spec.2.2.1
  change (rewriteBlocks _ _ _ _).length ≤ _
  rw [← (rewriteBlocks_sameShape md t.itemPointers hle).length_eq, closePage_pages_length]
  change t.pages.length ≤ pages.length + _ at htl
  rwa [hplen] at htl

/-- Whenever the build returns, the stored graph is the file's, and it does
    return unless a level is out of range or the relation is full. -/
theorem storeExternalIndex_graph {source : Source σ} {fuel pgDimensions : ℕ}
    (hsrc : Provides read rem bufferSize file source) (hf : 2 * file.nodes.length + 1 < fuel) :
    (∀ r, storeExternalIndex read bufferSize fuel md opts pgDimensions file.nodes.length file.header
      source file.size = .done r → ∃ ips, GraphStored file ips r) ∧
    ((∀ node ∈ file.nodes, levelFromNode node < 100) →
      (if opts.pq then codebookPageCount pgDimensions else 0) + file.nodes.length <
        InvalidBlockNumber →
      ∃ r, storeExternalIndex read bufferSize fuel md opts pgDimensions
        file.nodes.length file.header
        source file.size = .done r) := by
  constructor
  · intro r hr
    obtain ⟨t, uh, ht, huh, rfl⟩ := storeExternalIndexWithin_done hsrc (le_refl _) hf hr
    exact ⟨t.itemPointers, graphStored_of_filled ht huh⟩
  · intro hlev hsize
    obtain ⟨r, hr, -⟩ := storeExternalIndex_total hsrc hf hlev hsize
    exact ⟨r, hr⟩

end Build

def pairFile : UsearchFile tinyMetadata 1 where
  header := ⟨1, []⟩
  nodes := [pairNode 1, pairNode 0]
  wellFormed := by
    intro node h
    simp only [List.mem_cons, List.not_mem_nil, or_false] at h
    rcases h with rfl | rfl <;> exact ⟨by decide, by decide⟩
  fits := by decide
  slots_lt := by decide
  entry_lt := by decide

theorem storeExternalIndex_graph_pair :
    ∃ r ips, storeExternalIndex readBytes
      (2 * BLCKSZ + 1) 6 tinyMetadata tinyMetadata.initOptions 1 2
      pairFile.header (.mapped pairFile.body) pairFile.size = .done r ∧
        GraphStored pairFile ips r := by
  obtain ⟨hgraph, htotal⟩ := @storeExternalIndex_graph (List UInt8) readBytes id tinyMetadata
    tinyMetadata.initOptions (2 * BLCKSZ + 1) pairFile (.mapped pairFile.body) 6 1 rfl (by decide)
  obtain ⟨r, hr⟩ := htotal (by decide) (by decide)
  obtain ⟨ips, hips⟩ := hgraph r hr
  exact ⟨r, ips, hr, hips⟩

end Lantern.StoreRewrite
