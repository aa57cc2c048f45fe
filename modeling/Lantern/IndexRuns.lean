import Lantern.BulkDelete
import Lantern.SystemRuns

set_option autoImplicit false

/-!
# Runs of an index

An index is built, from nodes or empty, and then sees inserts, inserts that
fail after they allocated a block, and bulk deletions that may stop early. The
chain of data pages holds after any sequence of them.
-/
namespace Lantern.IndexRuns
open FuelLoop ByteStrings NodeLayout PageLayout IndexRelation PageChain StoreNodes StoreIndex
open StoreStreaming StoreRewrite InsertTuple BulkDelete SystemRuns

inductive Built (md : Metadata) : Rel → Prop where
  | stored {σ : Type} {read : σ → ℕ → Outcome Fault (List UInt8 × σ)} {rem : σ → List UInt8}
      {room bufferSize fuel pgDimensions : ℕ} {opts : UsearchInitOptions}
      {file : UsearchFile md opts.dimensions} {source : Source σ} {r : Rel}
      (hsrc : Provides read rem bufferSize file source) (hroom : file.nodes.length ≤ room)
      (hf : 2 * file.nodes.length + 1 < fuel)
      (h : storeExternalIndexWithin read room bufferSize fuel md opts pgDimensions file.nodes.length
        file.header source file.size = .done r) : Built md r
  | empty (uh : UsearchHeader) (dimensions : ℕ) (opts : UsearchInitOptions) :
      Built md (storeExternalEmptyIndex uh dimensions opts)

/-- An error may end an insert anywhere before its first record is finished;
    the block it allocated then stays behind. -/
inductive IndexStep : Rel → Rel → Prop where
  | insert {r : Rel} {md : Metadata} {add : UsearchAdd} {st : InsertState}
      (h : insertWork md r add = .done st) : IndexStep r (finishInsert r st)
  | abort {r : Rel} (h : r.pages.length + 1 < InvalidBlockNumber) :
      IndexStep r { r with pages := r.pages ++ [zeroPage] }
  | bulkDelete {r : Rel} (callback : ItemPointerData → Bool) (blocks : ℕ)
      (h : blocks ≤ r.header.lastDataBlock) :
      IndexStep r { r with pages := (bulkDeleteBlocks callback blocks 1 r.pages 0).pages }

def indexSystem : System Rel := ⟨fun r => ∃ md, Built md r, IndexStep⟩

theorem builtRel_chained (md : Metadata) (opts : UsearchInitOptions) (n : ℕ)
    {nodes : List (List UInt8)} {t : StoreState} (ht : Filled nodes t) (uh : UsearchHeader) :
    Chained nodes.length t.lastBlock (dataPages 1 (builtRel md opts n t uh).pages) ∧
      (builtRel md opts n t uh).pages.length < InvalidBlockNumber := by
  have hle : t.lastBlock ≠ InvalidBlockNumber → t.lastBlock ≤ (closePage t).pages.length :=
    fun hl => (ht.chained.lastPage hl).choose_spec.2.2.1
  have hshape := rewriteBlocks_sameShape md t.itemPointers hle
  refine ⟨ht.chained.sameShape (dataPages_sameShape hshape 1), ?_⟩
  change (rewriteBlocks _ _ _ _).length < _
  rw [← hshape.length_eq, closePage_pages_length]
  exact ht.length_lt

variable {r : Rel}

theorem built_chain {md : Metadata} (h : Built md r) : IndexChain r := by
  cases h with
  | stored hsrc hroom hf h =>
    obtain ⟨t, uh, ht, -, rfl⟩ := storeExternalIndexWithin_done hsrc hroom hf h
    obtain ⟨hchained, hlen⟩ := builtRel_chained md _ _ ht uh
    exact ⟨hchained, hlen⟩
  | empty uh dimensions opts =>
    exact ⟨.nil, Nat.succ_pos _⟩

theorem step_chain {r' : Rel} (hr : IndexChain r) (h : IndexStep r r') : IndexChain r' := by
  cases h with
  | insert h => exact finishInsert_chain hr h
  | abort h =>
    refine ⟨?_, by simpa using h⟩
    change Chained _ _ (dataPages 1 (r.pages ++ [zeroPage]))
    rw [dataPages_append_zero]
    exact hr.chained
  | bulkDelete callback blocks h =>
    refine ⟨hr.chained.of_getPage (bulkDeleteBlocks_sameShape callback blocks r.pages), ?_⟩
    change (bulkDeleteBlocks callback blocks 1 r.pages 0).pages.length < _
    rw [(bulkDeleteBlocks_spec callback blocks 1 0 r.pages (le_refl _)).1]
    exact hr.length_lt

theorem reachable_chain (h : Reachable indexSystem r) : IndexChain r := by
  refine h.invariant IndexChain ?_ fun _ _ => step_chain
  rintro _ ⟨md, hb⟩
  exact built_chain hb

def dataBlocks (pages : List Page) : List ℕ :=
  (List.range' 1 pages.length).filter fun b => (getPage pages b).items ≠ []

theorem dataPages_blocks (pages : List Page) :
    (dataPages 1 pages).map Prod.fst = dataBlocks pages := by
  induction pages using List.reverseRecOn with
  | nil => rfl
  | append_singleton pages p ih =>
    have hold : (List.range' 1 pages.length).filter
        (fun b => (getPage (pages ++ [p]) b).items ≠ []) = dataBlocks pages := by
      refine List.filter_congr fun b hb => ?_
      have := List.mem_range'_1.mp hb
      rw [getPage_append_left (by omega)]
    have hnew : getPage (pages ++ [p]) (1 + pages.length) = p := getPage_at pages [] p
    have hsplit : dataBlocks (pages ++ [p]) = dataBlocks pages ++
        [1 + pages.length].filter fun b => (getPage (pages ++ [p]) b).items ≠ [] := by
      rw [← hold, dataBlocks, List.length_append, List.length_singleton, List.range'_1_concat,
        List.filter_append]
    rw [dataPages_append, List.map_append, ih, hsplit]
    congr 1
    by_cases hp : p.items = [] <;> simp [dataPages, hp, hnew]

theorem dataPages_seqids (start : ℕ) (pages : List Page) :
    ((dataPages start pages).flatMap fun d => seqids d.2) = pages.flatMap seqids := by
  induction pages generalizing start with
  | nil => rfl
  | cons p pages ih =>
    rw [dataPages]
    split
    · rename_i hp
      rw [ih, List.flatMap_cons, seqids, hp]
      rfl
    · rw [List.flatMap_cons, List.flatMap_cons, ih]

def SpecialMatches (p : Page) : Prop :=
  (seqids p).head? = some p.special.firstId ∧ (seqids p).getLast? = some p.special.lastId

theorem pages_numbered (hr : IndexChain r) :
    r.pages.flatMap seqids = List.range r.header.numVectors := by
  rw [← dataPages_seqids 1]
  exact hr.chained.numbered

theorem no_last (hr : IndexChain r) (h : dataBlocks r.pages = []) :
    r.header.lastDataBlock = InvalidBlockNumber := by
  rw [← dataPages_blocks, List.map_eq_nil_iff] at h
  exact hr.chained.eq_nil_iff.mp h

theorem links_follow (hr : IndexChain r) {first : ℕ} {rest : List ℕ}
    (h : dataBlocks r.pages = first :: rest) :
    (∀ fuel ≥ r.pages.length, followChain r.pages fuel first = dataBlocks r.pages) ∧
    (dataBlocks r.pages).getLast? = some r.header.lastDataBlock ∧
    (getPage r.pages r.header.lastDataBlock).special.nextblockno = InvalidBlockNumber := by
  rw [← dataPages_blocks] at h ⊢
  obtain ⟨d, ds, hd, rfl, -⟩ := List.map_eq_cons_iff.mp h
  have hl : r.header.lastDataBlock ≠ InvalidBlockNumber := by
    rw [ne_eq, ← hr.chained.eq_nil_iff, hd]
    exact List.cons_ne_nil _ _
  have hlast := hr.chained.ends
  rw [if_neg hl] at hlast
  obtain ⟨e, he, heq⟩ := Option.map_eq_some_iff.mp hlast
  refine ⟨fun fuel hf => hr.chained.followChain_eq hr.length_lt hd hf, ?_,
    (hr.chained.lastSpecial hl).1⟩
  rw [List.getLast?_map, he]
  exact congrArg some (congrArg Prod.fst heq)

/-- In every reachable index the sequence numbers run through the pages in
    order, special blocks and links agree with the items, and no assert on the
    insert path can fail. -/
theorem reachable_index_wellFormed (h : Reachable indexSystem r) :
    r.pages.flatMap seqids = List.range r.header.numVectors ∧
    (∀ b ∈ dataBlocks r.pages, SpecialMatches (getPage r.pages b)) ∧
    (dataBlocks r.pages = [] → r.header.lastDataBlock = InvalidBlockNumber) ∧
    (∀ first rest, dataBlocks r.pages = first :: rest →
      (∀ fuel ≥ r.pages.length, followChain r.pages fuel first = dataBlocks r.pages) ∧
      (dataBlocks r.pages).getLast? = some r.header.lastDataBlock ∧
      (getPage r.pages r.header.lastDataBlock).special.nextblockno = InvalidBlockNumber) ∧
    ∀ md level condition, prepareIndexTuple md r.header.numVectors level
      ⟨r.pages, r.header, extraDirtiedNew⟩ ≠ .fault (.assertFailed condition) := by
  have hr := reachable_chain h
  refine ⟨pages_numbered hr, ?_, no_last hr,
    fun _ _ h => links_follow hr h, ?_⟩
  · intro b hb
    rw [← dataPages_blocks] at hb
    obtain ⟨d, hd, rfl⟩ := List.mem_map.mp hb
    rw [(getPage_of_mem_dataPages hd).2.2.1]
    exact hr.chained.bounds d hd
  · intro md level condition he
    rw [prepareIndexTuple] at he
    rcases placeTuple_outcome (t := newTuple md r level) hr rfl with ⟨text, ho⟩ | ⟨grown,
      st, slot, ho, -⟩
    · rw [newTuple] at ho
      rw [ho] at he
      cases he
    · rw [newTuple] at ho
      rw [ho] at he
      cases he

def emptyIndex : Rel := storeExternalEmptyIndex ⟨0, []⟩ 1 tinyMetadata.initOptions

def wideIndex : Rel := storeExternalEmptyIndex ⟨0, []⟩ 1200 tinyMetadata.initOptions

/-- A level 0 node for a heap row, linked with its neighbours both ways. The first
    node of the index stays the entry. -/
def linkedAdd (row : ItemPointerData) (neighbors : List ItemPointerData) : UsearchAdd where
  level := 0
  level_le := Nat.zero_le _
  label := itemPointer2Label row
  edits := fun slot =>
    (slot, .setNeighbors 0 neighbors) :: neighbors.map fun n => (n, .setNeighbors 0 [slot])
  header := fun _ => ⟨leNat (itemPointerBytes ⟨1, 1⟩), []⟩
  error := none

def inserted (r : Rel) (add : UsearchAdd) : Rel :=
  match insertWork tinyMetadata r add with
  | .done st => finishInsert r st
  | _ => r

theorem inserted_reachable (h : Reachable indexSystem r) (add : UsearchAdd) :
    Reachable indexSystem (inserted r add) := by
  unfold inserted
  split
  · rename_i st hst
    exact h.next (.insert hst)
  · exact h

def indexOfTwo : Rel :=
  inserted (inserted wideIndex (linkedAdd ⟨0, 1⟩ [])) (linkedAdd ⟨0, 2⟩ [⟨1, 1⟩])

def indexOfThree : Rel := inserted indexOfTwo (linkedAdd ⟨0, 3⟩ [⟨1, 1⟩])

theorem indexOfThree_reachable : Reachable indexSystem indexOfThree :=
  inserted_reachable (inserted_reachable (inserted_reachable
    (.start ⟨tinyMetadata, .empty ⟨0, []⟩ 1200 tinyMetadata.initOptions⟩) _) _) _

def afterAbort : Rel := { indexOfThree with pages := indexOfThree.pages ++ [zeroPage] }

def afterVacuum : Rel :=
  { afterAbort with
    pages := (bulkDeleteBlocks (fun tid => tid == ⟨0, 2⟩) 3 1 afterAbort.pages 0).pages }

def indexOfFour : Rel := inserted afterVacuum (linkedAdd ⟨0, 4⟩ [⟨3, 1⟩])

theorem indexOfFour_reachable : Reachable indexSystem indexOfFour :=
  inserted_reachable ((indexOfThree_reachable.next (.abort (by decide +kernel))).next
    (.bulkDelete (fun tid => tid == ⟨0, 2⟩) 3 (by decide +kernel))) _

/-- Three inserts, one that left block 4 behind, a bulk deletion, and one more. -/
theorem indexOfFour_wellFormed :
    indexOfFour.header.numVectors = 4 ∧ indexOfFour.pages.flatMap seqids = List.range 4 ∧
      ∀ fuel ≥ 5, followChain indexOfFour.pages fuel 1 = [1, 2, 3, 5] := by
  have hblocks : dataBlocks indexOfFour.pages = [1, 2, 3, 5] := by decide +kernel
  have hcount : indexOfFour.header.numVectors = 4 := by decide +kernel
  have hpages : indexOfFour.pages.length = 5 := by decide +kernel
  obtain ⟨hseq, -, -, hchain, -⟩ := reachable_index_wellFormed indexOfFour_reachable
  rw [hcount] at hseq
  refine ⟨hcount, hseq, fun fuel hf => ?_⟩
  rw [(hchain 1 [2, 3, 5] hblocks).1 fuel (hpages ▸ hf), hblocks]

theorem addVector_unordered {p q : Page} {t : HnswIndexTuple} {off : ℕ} (hp : p.items ≠ [])
    (hid : p.special.lastId + 1 ≠ t.seqid) (h : pageAddItem p t = some (q, off)) :
    hnswIndexPageAddVector p t =
      .fault (.assertFailed "special_block->lastId == new_vector_data->seqid - 1") := by
  obtain ⟨rfl, -⟩ := pageAddItem_eq_some h
  have hpos := List.length_pos_iff.mpr hp
  have hlen : ¬ pageGetMaxOffsetNumber { p with items := p.items ++ [t] } = 1 := by
    simp only [pageGetMaxOffsetNumber, List.length_append, List.length_singleton]
    omega
  simp only [hnswIndexPageAddVector, h, if_neg hlen, if_pos hid]

theorem insert_past_count {md : Metadata} {n level : ℕ}
    (hr : Chained n r.header.lastDataBlock (dataPages 1 r.pages)) (hn : n ≠ r.header.numVectors)
    (hl : r.header.lastDataBlock ≠ InvalidBlockNumber)
    (htest : sizeofItemIdData + sizeofHnswIndexTuple + (newTuple md r level).size <
      pageGetFreeSpace (getPage r.pages r.header.lastDataBlock))
    (hadd : (pageAddItem (getPage r.pages r.header.lastDataBlock) (newTuple md r level)).isSome =
      true) :
    prepareIndexTuple md r.header.numVectors level ⟨r.pages, r.header, extraDirtiedNew⟩ =
      .fault (.assertFailed "special_block->lastId == new_vector_data->seqid - 1") := by
  obtain ⟨-, -, -, -, hitems⟩ := hr.lastPage hl
  obtain ⟨-, hid⟩ := hr.lastSpecial hl
  obtain ⟨⟨q, off⟩, hq⟩ := Option.isSome_iff_exists.mp hadd
  change (placeTuple (newTuple md r level) ⟨r.pages, r.header, extraDirtiedNew⟩).map _ = _
  rw [placeTuple_last _ hl]
  dsimp only
  rw [if_pos htest, addVector_unordered hitems (by rw [hid]; exact hn) hq]
  rfl

def fourNodes : List (List UInt8) := List.replicate 4 emptyNode

theorem fourNodes_flatten : fourNodes.flatten = List.replicate 168 0 := by
  rw [fourNodes, emptyNode, List.flatten_replicate_replicate]

def storedFour : StoreState :=
  match foldSteps (addNode tinyMetadata 1) fourNodes
    (openPage [] InvalidBlockNumber 0 noItemPointers) with
  | .done t => t
  | _ => openPage [] InvalidBlockNumber 0 noItemPointers

theorem fourNodes_folded :
    foldSteps (addNode tinyMetadata 1) fourNodes (openPage [] InvalidBlockNumber 0 noItemPointers) =
      .done storedFour := rfl

theorem fourNodes_filled : Filled fourNodes storedFour :=
  Filled.foldSteps (emptyNodes_storable 4) rfl (by decide) fourNodes_folded

theorem fourNodes_streamed :
    streamPass readBytes tinyMetadata 1 5 EXTERNAL_INDEX_FILE_BUFFER_SIZE 50
        (USEARCH_HEADER_SIZE + 168)
        (streamInit EXTERNAL_INDEX_FILE_BUFFER_SIZE fourNodes.flatten []) =
      .done ⟨[], none, EXTERNAL_INDEX_FILE_BUFFER_SIZE - 168, USEARCH_HEADER_SIZE + 168,
        storedFour.nodeId, (closePage storedFour).pages, storedFour.lastBlock,
        storedFour.itemPointers⟩ := by
  have hlen : fourNodes.flatten.length = 168 := by rw [fourNodes_flatten, List.length_replicate]
  have hB : EXTERNAL_INDEX_FILE_BUFFER_SIZE = 10485760 := rfl
  have hr : readBytes fourNodes.flatten (EXTERNAL_INDEX_FILE_BUFFER_SIZE - 0) =
      .done (fourNodes.flatten, []) := by
    rw [readBytes, List.take_of_length_le (by omega), List.drop_eq_nil_of_le (by omega)]
  have hpass := @streamPass_end (List UInt8) readBytes tinyMetadata 1 5
    EXTERNAL_INDEX_FILE_BUFFER_SIZE 50 (USEARCH_HEADER_SIZE + 168) fourNodes
    (List.replicate EXTERNAL_INDEX_FILE_BUFFER_SIZE 0) fourNodes.flatten
    (streamInit EXTERNAL_INDEX_FILE_BUFFER_SIZE fourNodes.flatten []) [] hr rfl (Nat.zero_le _)
    (by rw [hlen]; rfl) (List.nil_append _) (emptyNodes_storable 4) (List.cons_ne_nil _ _)
    (fun h => absurd rfl h) (by decide) (by decide)
  change _ = Outcome.map _ (foldSteps (addNode tinyMetadata 1) fourNodes
    (openPage [] InvalidBlockNumber 0 noItemPointers)) at hpass
  rwa [fourNodes_folded, Outcome.map_done, hlen] at hpass

theorem fourNodes_loaded :
    storeNodesFrom readBytes EXTERNAL_INDEX_FILE_BUFFER_SIZE 50 tinyMetadata 1 5 3
        (USEARCH_HEADER_SIZE + 168) (.socket fourNodes.flatten) [] =
      .done ⟨(closePage storedFour).pages, storedFour.lastBlock, storedFour.itemPointers,
        storedFour.nodeId⟩ := by
  have hid : storedFour.nodeId = 4 := fourNodes_filled.numbered
  rw [storeNodesFrom, storeStreamed, loop_single (by decide) (by simp [streamInit])
    fourNodes_streamed (by simp [hid]), Outcome.map_done, StreamState.loaded]

/-- A server announces three nodes and sends four; the 18 bytes asked for
    `item_pointers` come as a chunk of 32. The header counts three of the four nodes,
    and the next insert fails an assert. -/
theorem fourth_node_breaks_index :
    ∃ r, storeExternalIndexWithin readBytes 5 EXTERNAL_INDEX_FILE_BUFFER_SIZE 50 tinyMetadata
        tinyMetadata.initOptions 1 3 ⟨0, []⟩ (.socket fourNodes.flatten)
          (USEARCH_HEADER_SIZE + 168) =
          .done r ∧
      r.header.numVectors = 3 ∧ r.pages.flatMap seqids = [0, 1, 2, 3] ∧
      prepareIndexTuple tinyMetadata r.header.numVectors 0 ⟨r.pages, r.header, extraDirtiedNew⟩ =
        .fault (.assertFailed "special_block->lastId == new_vector_data->seqid - 1") := by
  have hchained := builtRel_chained tinyMetadata tinyMetadata.initOptions 3 fourNodes_filled
  refine ⟨builtRel tinyMetadata tinyMetadata.initOptions 3 storedFour
    ⟨leNat (itemPointerBytes (storedFour.itemPointers 0)), []⟩, ?_, rfl, ?_, ?_⟩
  · have hpages : addCodebookPages
        (if tinyMetadata.initOptions.pq then codebookPageCount 1 else 0) [] = .done [] := rfl
    have hentry : rewriteEntrySlot storedFour.itemPointers ⟨0, []⟩ =
        .done ⟨leNat (itemPointerBytes (storedFour.itemPointers 0)), []⟩ := by
      rw [rewriteEntrySlot, if_pos (by decide), Nat.zero_mod]
    unfold storeExternalIndexWithin
    rw [hpages, Outcome.bind_done, show tinyMetadata.initOptions.dimensions = 1 from rfl,
      fourNodes_loaded, Outcome.bind_done, if_pos (by decide), hentry, Outcome.bind_done]
    rfl
  · rw [← dataPages_seqids 1]
    exact (hchained _).1.numbered
  · exact insert_past_count (hchained _).1 (by decide) (by decide) (by decide) (by decide)

end Lantern.IndexRuns
