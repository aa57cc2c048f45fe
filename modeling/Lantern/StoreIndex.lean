import Lantern.StoreNodes

set_option autoImplicit false

/-!
# Building the index relation from a usearch file

`storeExternalIndex` writes the header, the codebook pages of a quantized
index, then the nodes, which come either from a file mapped into memory or from
a socket through a buffer that is refilled, and finally replaces the node
numbers in neighbour lists and entry slot by item pointers.
-/
namespace Lantern.StoreIndex
open FuelLoop ByteStrings NodeLayout PageLayout IndexRelation PageChain StoreNodes

def USEARCH_HEADER_SIZE : ℕ := 136
def EXTERNAL_INDEX_FILE_BUFFER_SIZE : ℕ := 1024 * 1024 * 10

def hammingWordBits : ℕ := 32

def storedHeader (opts : UsearchInitOptions) (numAddedVectors : ℕ) (uh : UsearchHeader) :
    HnswIndexHeaderPage where
  magicNumber := LDB_WAL_MAGIC_NUMBER
  version := LDB_WAL_VERSION_NUMBER
  vectorDim :=
    if opts.metricKind = .hamming then opts.dimensions / hammingWordBits else opts.dimensions
  m := opts.connectivity
  efConstruction := opts.expansionAdd
  ef := opts.expansionSearch
  metricKind := opts.metricKind
  numVectors := numAddedVectors
  lastDataBlock := InvalidBlockNumber
  usearchHeader := uh
  pq := opts.pq
  numCentroids := opts.numCentroids
  numSubvectors := opts.numSubvectors
  quantization := opts.quantization

def codebookPageCount (pgDimensions : ℕ) : ℕ := (256 * pgDimensions * 4 + (BLCKSZ - 1)) / BLCKSZ

def addCodebookPages : ℕ → List Page → Outcome Fault (List Page)
  | 0, pages => .done pages
  | k + 1, pages =>
    (readBufferNew pages).bind fun (blockno, pages) =>
      addCodebookPages k (setPage pages blockno (pageInit 0))

/-- Pages, `last_data_block`, item pointers and tuple count after all nodes
    were stored. -/
structure Loaded where
  pages : List Page
  lastDataBlock : ℕ
  itemPointers : ℕ → ItemPointerData
  tupleCount : ℕ

def noItemPointers : ℕ → ItemPointerData := fun _ => ⟨0, 0⟩

def storeMapped (md : Metadata) (dim room fuel numAddedVectors indexFileSize : ℕ)
    (body : List UInt8) (pages : List Page) : Outcome Fault Loaded :=
  (storeExternalIndexNodes md dim room fuel pages InvalidBlockNumber body
    (indexFileSize - USEARCH_HEADER_SIZE) 0 noItemPointers).bind fun r =>
      if r.nextNodeIndex = numAddedVectors then
        .done ⟨r.pages, r.lastDataBlock, r.itemPointers, r.nextNodeIndex⟩
      else .fault (.assertFailed "added_vectors == num_added_vectors")

section Streaming
variable {σ : Type} (read : σ → ℕ → Outcome Fault (List UInt8 × σ))
variable (md : Metadata) (dim room bufferSize fuel numAddedVectors indexFileSize : ℕ)

/-- Local variables of the streaming loop. `buffer` is `none` once freed. -/
structure StreamState (σ : Type) where
  socket : σ
  buffer : Option (List UInt8)
  bufferPosition : ℕ
  totalBytesRead : ℕ
  tuplesIndexed : ℕ
  pages : List Page
  lastDataBlock : ℕ
  itemPointers : ℕ → ItemPointerData

def streamPass (s : StreamState σ) : Outcome Fault (StreamState σ) :=
  match s.buffer with
  | none => .fault .useAfterFree
  | some old =>
    (read s.socket (bufferSize - s.bufferPosition)).bind fun (bytes, socket) =>
      let buffer := patch s.bufferPosition bytes old
      let total := s.totalBytesRead + bytes.length
      let dataSize :=
        if total = indexFileSize then s.bufferPosition + bytes.length else bufferSize - BLCKSZ
      (storeExternalIndexNodes md dim room fuel s.pages s.lastDataBlock buffer dataSize
        s.tuplesIndexed s.itemPointers).bind fun r =>
        let position := bufferSize - r.bytesWritten
        let next : Option (List UInt8) → StreamState σ := fun b =>
          ⟨socket, b, position, total, r.nextNodeIndex, r.pages, r.lastDataBlock, r.itemPointers⟩
        if total = indexFileSize then .done (next none)
        else if BLCKSZ < position then .fault (.assertFailed "buffer_position <= BLCKSZ")
        else .done (next (some (patch 0 (slice r.bytesWritten position buffer) buffer)))

def streamInit (socket : σ) (pages : List Page) : StreamState σ :=
  ⟨socket, some (List.replicate bufferSize 0), 0, USEARCH_HEADER_SIZE, 0, pages, InvalidBlockNumber,
    noItemPointers⟩

def StreamState.loaded (s : StreamState σ) : Loaded :=
  ⟨s.pages, s.lastDataBlock, s.itemPointers, s.tuplesIndexed⟩

def storeStreamed (socket : σ) (pages : List Page) : Outcome Fault Loaded :=
  (loop (fun s => s.tuplesIndexed < numAddedVectors)
    (streamPass read md dim room bufferSize fuel indexFileSize) fuel
    (streamInit bufferSize socket pages)).map StreamState.loaded

end Streaming

def rewriteSlot (ips : ℕ → ItemPointerData) (off : ℕ) (node : List UInt8) : List UInt8 :=
  patch off (itemPointerBytes (ips (slotSeqid node off))) node

def rewriteLevel (md : Metadata) (ips : ℕ → ItemPointerData) (node : List UInt8) (level : ℕ) :
    List UInt8 :=
  let (_, slotCount) := getNodeNeighborsMut md node level
  (List.range slotCount).foldl (fun node j => rewriteSlot ips (slotOffset md level j) node) node

def rewriteNode (md : Metadata) (ips : ℕ → ItemPointerData) (node : List UInt8) : List UInt8 :=
  (List.range (levelFromNode node + 1)).foldl (rewriteLevel md ips) node

def rewriteTuple (md : Metadata) (ips : ℕ → ItemPointerData) (t : HnswIndexTuple) :
    HnswIndexTuple :=
  { t with node := rewriteNode md ips t.node }

def rewritePage (md : Metadata) (ips : ℕ → ItemPointerData) (p : Page) : Page :=
  { p with items := p.items.map (rewriteTuple md ips) }

def rewriteBlocks (md : Metadata) (ips : ℕ → ItemPointerData) (lastDataBlock : ℕ)
    (pages : List Page) :
    List Page :=
  if lastDataBlock = InvalidBlockNumber then pages
  else (List.range' 1 lastDataBlock).foldl
    (fun ps b => setPage ps b (rewritePage md ips (getPage ps b))) pages

def rewriteEntrySlot (ips : ℕ → ItemPointerData) (uh : UsearchHeader) :
    Outcome Fault UsearchHeader :=
  if uh.entrySlot < 2 ^ 32 - 1 then
    .done { uh with entrySlot := leNat (itemPointerBytes (ips (uh.entrySlot % 2 ^ 32))) }
  else .fault (.assertFailed "entry_slot < UINT32_MAX")

inductive Source (σ : Type) where
  | mapped (body : List UInt8)
  | socket (s : σ)

def storeNodesFrom {σ : Type} (read : σ → ℕ → Outcome Fault (List UInt8 × σ)) (bufferSize fuel : ℕ)
    (md : Metadata) (dim room numAddedVectors indexFileSize : ℕ) (source : Source σ)
    (pages : List Page) : Outcome Fault Loaded :=
  match source with
  | .mapped body => storeMapped md dim room fuel numAddedVectors indexFileSize body pages
  | .socket s =>
    storeStreamed read md dim room bufferSize fuel numAddedVectors indexFileSize s pages

/-- `StoreExternalIndex` with an `item_pointers` of `room` elements. The array is
    allocated for `num_added_vectors`, but `palloc` hands out more where it rounds the
    size up. -/
def storeExternalIndexWithin {σ : Type} (read : σ → ℕ → Outcome Fault (List UInt8 × σ))
    (room bufferSize fuel : ℕ) (md : Metadata) (opts : UsearchInitOptions)
    (pgDimensions numAddedVectors : ℕ) (uh : UsearchHeader) (source : Source σ)
    (indexFileSize : ℕ) : Outcome Fault Rel :=
  let header := storedHeader opts numAddedVectors uh
  (addCodebookPages (if opts.pq then codebookPageCount pgDimensions else 0) []).bind fun pages =>
    (storeNodesFrom read bufferSize fuel md opts.dimensions room numAddedVectors
      indexFileSize source
      pages).bind fun l =>
        let rewritten := rewriteBlocks md l.itemPointers l.lastDataBlock l.pages
        (if 0 < numAddedVectors then rewriteEntrySlot l.itemPointers uh
          else .done uh).bind fun uh =>
          .done ⟨{ header with lastDataBlock := l.lastDataBlock, usearchHeader := uh }, rewritten⟩

def storeExternalIndex {σ : Type} (read : σ → ℕ → Outcome Fault (List UInt8 × σ))
    (bufferSize fuel : ℕ) (md : Metadata) (opts : UsearchInitOptions)
    (pgDimensions numAddedVectors : ℕ) (uh : UsearchHeader) (source : Source σ)
    (indexFileSize : ℕ) : Outcome Fault Rel :=
  storeExternalIndexWithin read numAddedVectors bufferSize fuel md opts pgDimensions numAddedVectors
    uh source indexFileSize

def storeExternalEmptyIndex (uh : UsearchHeader) (dimensions : ℕ) (opts : UsearchInitOptions) :
    Rel :=
  ⟨{ storedHeader opts 0 uh with vectorDim := dimensions }, []⟩

def buildIndex {σ : Type} (read : σ → ℕ → Outcome Fault (List UInt8 × σ))
    (bufferSize fuel : ℕ) (md : Metadata) (opts : UsearchInitOptions)
    (pgDimensions numAddedVectors : ℕ) (uh : UsearchHeader) (source : Source σ)
    (indexFileSize : ℕ) :
    Outcome Fault Rel :=
  if numAddedVectors = 0 then .done (storeExternalEmptyIndex uh pgDimensions opts)
  else storeExternalIndex read bufferSize fuel md opts pgDimensions numAddedVectors uh source
    indexFileSize

/-- A usearch file: header and nodes, every slot and the entry slot naming one
    of the nodes, every node small enough for a page of its own. -/
structure UsearchFile (md : Metadata) (dim : ℕ) where
  header : UsearchHeader
  nodes : List (List UInt8)
  wellFormed : ∀ node ∈ nodes, WellFormedNode md dim node
  fits : ∀ node ∈ nodes, FitsFreshPage node.length
  slots_lt : ∀ node ∈ nodes, ∀ l ≤ levelFromNode node, ∀ j < neighborsCount md node l,
    slotSeqid node (slotOffset md l j) < nodes.length
  entry_lt : header.entrySlot < nodes.length

def UsearchFile.body {md : Metadata} {dim : ℕ} (file : UsearchFile md dim) : List UInt8 :=
  file.nodes.flatten

def UsearchFile.size {md : Metadata} {dim : ℕ} (file : UsearchFile md dim) : ℕ :=
  USEARCH_HEADER_SIZE + file.body.length

theorem UsearchFile.storable {md : Metadata} {dim : ℕ} (file : UsearchFile md dim) :
    ∀ node ∈ file.nodes, Storable md dim node :=
  fun node h => ⟨(file.wellFormed node h).size_eq, file.fits node h⟩

theorem UsearchFile.nodes_ne_nil {md : Metadata} {dim : ℕ} (file : UsearchFile md dim) :
    file.nodes ≠ [] := by
  intro h
  have := file.entry_lt
  simp [h] at this

/-- Node `i` is the tuple numbered `i` at the item pointer recorded for it,
    and there are no other tuples. -/
structure Placed (nodes : List (List UInt8)) (ips : ℕ → ItemPointerData) (pages : List Page) :
    Prop where
  at_pointer : ∀ i node, nodes[i]? = some node → tupleAt pages (ips i) = some ⟨i, node.length, node⟩
  no_others : ∀ tid t, tupleAt pages tid = some t → t.seqid < nodes.length ∧ ips t.seqid = tid

variable {pages : List Page}

theorem addCodebookPages_done {k : ℕ} {ps : List Page} (h : addCodebookPages k pages = .done ps)
    (hempty : dataPages 1 pages = []) (hlen : pages.length < InvalidBlockNumber) :
    dataPages 1 ps = [] ∧ ps.length = pages.length + k ∧ ps.length < InvalidBlockNumber := by
  induction k generalizing pages with
  | zero =>
    cases h
    exact ⟨hempty, rfl, hlen⟩
  | succ k ih =>
    obtain ⟨⟨b, qs⟩, hnew, hrest⟩ := Outcome.bind_eq_done.mp h
    obtain ⟨rfl, hlt, rfl⟩ := readBufferNew_eq_done hnew
    have hpages :
        setPage (pages ++ [zeroPage]) (pages.length + 1) (pageInit 0) = pages ++ [pageInit 0] := by
      rw [Nat.add_comm, setPage_at]
    simp only [hpages] at hrest
    obtain ⟨h1, h2, h3⟩ := ih hrest
      (by rw [dataPages_append, hempty]; rfl) (by simpa using hlt)
    exact ⟨h1, by rw [h2]; simp; omega, h3⟩

theorem addCodebookPages_total {k : ℕ} (h : pages.length + k < InvalidBlockNumber) :
    ∃ ps, addCodebookPages k pages = .done ps := by
  induction k generalizing pages with
  | zero => exact ⟨pages, rfl⟩
  | succ k ih =>
    rw [addCodebookPages, readBufferNew, if_pos (by omega)]
    exact ih (by simp; omega)

theorem Placed.nil {ips : ℕ → ItemPointerData} (h : dataPages 1 pages = []) :
    Placed [] ips pages where
  at_pointer := by simp
  no_others := by
    intro tid t ht
    obtain ⟨h1, h2, h3, h4⟩ := tupleAt_eq_some ht
    exfalso
    have hmem := getPage_mem_dataPages h1 h2 (by intro hnil; simp [hnil] at h4)
    simp [h] at hmem

theorem Placed.grown {nodes : List (List UInt8)} {node : List UInt8} {ips : ℕ → ItemPointerData}
    {pages' : List Page} {lastBlock lastBlock' off : ℕ} (h : Placed nodes ips pages)
    (hg : Grown pages lastBlock ⟨nodes.length, node.length, node⟩ pages' lastBlock' off)
    (hb : lastBlock = InvalidBlockNumber ∨ 1 ≤ lastBlock ∧ lastBlock ≤ pages.length) :
    Placed (nodes ++ [node]) (Function.update ips nodes.length ⟨lastBlock', off⟩) pages' where
  at_pointer := by
    intro i n hi
    by_cases hlt : i < nodes.length
    · rw [List.getElem?_append_left hlt] at hi
      rw [Function.update_of_ne (by omega)]
      exact hg.tupleAt_old (h.at_pointer i n hi)
    · obtain ⟨hlen, -⟩ := List.getElem?_eq_some_iff.mp hi
      obtain rfl : i = nodes.length := by simp at hlen; omega
      simp only [List.getElem?_concat_length, Option.some.injEq] at hi
      subst hi
      rw [Function.update_self]
      exact hg.tupleAt_new hb
  no_others := by
    intro tid t ht
    rcases hg.tupleAt_inv ht with ht | ⟨rfl, rfl⟩
    · obtain ⟨hlt, heq⟩ := h.no_others tid t ht
      refine ⟨by simp; omega, ?_⟩
      rw [Function.update_of_ne (by omega)]
      exact heq
    · exact ⟨by simp, Function.update_self ..⟩

structure Filled (seen : List (List UInt8)) (s : StoreState) : Prop where
  ready : Ready s
  numbered : s.nodeId = seen.length
  chained : Chained seen.length s.lastBlock (dataPages 1 (closePage s).pages)
  length_lt : s.pages.length < InvalidBlockNumber
  placed : Placed seen s.itemPointers (closePage s).pages

theorem Filled.addNode {md : Metadata} {dim : ℕ} {seen : List (List UInt8)} {node : List UInt8}
    {s t : StoreState} (hn : Storable md dim node) (h : Filled seen s)
    (ht : StoreNodes.addNode md dim s node = .done t) : Filled (seen ++ [node]) t := by
  obtain ⟨off, hg, hip⟩ := addNode_grown hn h.ready ht
  obtain ⟨hready, -, -, hid⟩ := addNode_ready hn h.ready ht
  have hlen := hg.length_lt (by rw [closePage_pages_length]; exact h.length_lt)
  rw [closePage_pages_length, closePage_pages_length] at hlen
  have hb := h.ready.closed_range
  rw [h.numbered] at hg hip hid
  refine ⟨hready, by simp [hid], ?_, hlen.2, ?_⟩
  · rw [List.length_append]
    exact hg.chained h.chained rfl
  · rw [hip]
    exact h.placed.grown hg hb

theorem Filled.foldSteps {md : Metadata} {dim : ℕ} {nodes : List (List UInt8)}
    (hn : ∀ node ∈ nodes, Storable md dim node) {t : StoreState} (hempty : dataPages 1 pages = [])
    (hlen : pages.length < InvalidBlockNumber)
    (h : FuelLoop.foldSteps (StoreNodes.addNode md dim) nodes
      (openPage pages InvalidBlockNumber 0 noItemPointers) = .done t) : Filled nodes t := by
  have hclose : closePage (openPage pages InvalidBlockNumber 0 noItemPointers) =
      openPage pages InvalidBlockNumber 0 noItemPointers := closePage_of_none (by simp [openPage])
  have hinit : Filled [] (openPage pages InvalidBlockNumber 0 noItemPointers) := by
    refine ⟨.openPage (fun h => absurd rfl h), rfl, ?_, hlen, ?_⟩
    · rw [hclose]
      change Chained 0 InvalidBlockNumber (dataPages 1 pages)
      rw [hempty]
      exact .nil
    · rw [hclose]
      exact .nil hempty
  have hfinal := foldSteps_invariant (fun seen s => Filled seen s) []
    (fun seen s node t hmem hs ht => hs.addNode (hn node hmem) ht) hinit h
  simpa using hfinal

end Lantern.StoreIndex
