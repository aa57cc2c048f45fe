import Lantern.PageChain

set_option autoImplicit false

/-!
# Storing usearch nodes on index pages

`storeExternalIndexNodes` writes the nodes of a buffer one after another. A node that
the page refuses is tried again on a new page, so a pass of the loop may store nothing.
`addNode` is the same work as one step for each node, and `closePage` is the write of
`lastId` that ends a call. A page that is read again is taken to be as it was left: no
clean page is dropped, as in the builds of `BufferEviction`.
-/
namespace Lantern.StoreNodes
open FuelLoop ByteStrings NodeLayout PageLayout IndexRelation PageChain

/-- Local variables of the loop. `buf` is the block that `buf`, `page` and
    `special` refer to. -/
structure StoreState where
  pages : List Page
  buf : Option ℕ
  forceCreatePage : Bool
  lastBlock : ℕ
  nodeId : ℕ
  itemPointers : ℕ → ItemPointerData

def currentPage (s : StoreState) : Page :=
  match s.buf with
  | some b => getPage s.pages b
  | none => zeroPage

def updateCurrent (f : Page → Page) (s : StoreState) : StoreState :=
  match s.buf with
  | some b => { s with pages := setPage s.pages b (f (getPage s.pages b)) }
  | none => s

def createPage (s : StoreState) : Outcome Fault StoreState :=
  (readBufferNew s.pages).map fun (blockno, pages) =>
    let linked := updateCurrent (fun p => { p with special :=
      { p.special with nextblockno := blockno, lastId := s.nodeId - 1 } }) { s with pages := pages }
    let page := { pageInit sizeofHnswIndexPageSpecialBlock with
      special := ⟨s.nodeId, 0, InvalidBlockNumber⟩ }
    { linked with
      pages := setPage linked.pages blockno page
      buf := some blockno
      lastBlock := blockno
      forceCreatePage := false }

def preparePage (nodeSize : ℕ) (s : StoreState) : Outcome Fault StoreState :=
  if s.forceCreatePage ∨ pageGetFreeSpace (currentPage s) < sizeofHnswIndexTuple + nodeSize then
    createPage s
  else .done s

def putNode (tuple : HnswIndexTuple) (s : StoreState) : Outcome Fault StoreState :=
  match s.buf with
  | none => .fault .nullDereference
  | some blockno =>
    match pageAddItem (getPage s.pages blockno) tuple with
    | none => .done { s with forceCreatePage := true }
    | some (page, offsetno) =>
      .done { s with
        pages := setPage s.pages blockno page
        itemPointers := Function.update s.itemPointers s.nodeId ⟨blockno, offsetno⟩
        nodeId := s.nodeId + 1 }

def levelTooLarge (nodeId nodeLevel : ℕ) : Fault :=
  .elog ("LanternDB invariant violation: node level is too large. at id " ++ toString nodeId ++
    "this is likely a bug in usearch. level: " ++ toString nodeLevel)

/-- The `memcpy` behind the item's header, into a buffer of `BLCKSZ` bytes. -/
def stageNode (data : List UInt8) (nodeSize : ℕ) : Outcome Fault (List UInt8) :=
  if BLCKSZ < sizeofHnswIndexTuple + nodeSize then .fault .writePastBuffer
  else if data.length < nodeSize then .fault .readPastBuffer
  else .done (data.take nodeSize)

/-- From the node to its item on a page; `data` is the buffer from the node on. -/
def storeNode (md : Metadata) (dim : ℕ) (data : List UInt8) (s : StoreState) :
    Outcome Fault StoreState :=
  if data.length < nodeHeadBytes then .fault .readPastBuffer
  else
    let nodeSize := nodeTupleSize data dim md
    (preparePage nodeSize s).bind fun s =>
      if 100 ≤ levelFromNode data then .fault (levelTooLarge s.nodeId (levelFromNode data))
      else (stageNode data nodeSize).bind fun node => putNode ⟨s.nodeId, nodeSize, node⟩ s

structure StoreLoop where
  state : StoreState
  bytesWritten : ℕ

/-- One pass of the loop. `item_pointers` has `room` elements, and the pointer of a
    node goes to the element with its number. -/
def storePass (md : Metadata) (dim room : ℕ) (data : List UInt8) (l : StoreLoop) :
    Outcome Fault StoreLoop :=
  let node := data.drop l.bytesWritten
  (storeNode md dim node l.state).bind fun s =>
    if s.forceCreatePage then .done ⟨s, l.bytesWritten⟩
    else if room < s.nodeId then .fault .writePastBuffer
    else .done ⟨s, l.bytesWritten + nodeTupleSize node dim md⟩

def openPage (pages : List Page) (lastDataBlock firstNodeIndex : ℕ)
    (itemPointers : ℕ → ItemPointerData) : StoreState :=
  { pages := pages
    buf := if lastDataBlock = InvalidBlockNumber then none else some lastDataBlock
    forceCreatePage := lastDataBlock = InvalidBlockNumber
    lastBlock := lastDataBlock
    nodeId := firstNodeIndex
    itemPointers := itemPointers }

def closePage (s : StoreState) : StoreState :=
  updateCurrent (fun p => { p with special := { p.special with lastId := s.nodeId - 1 } }) s

structure Stored where
  pages : List Page
  lastDataBlock : ℕ
  itemPointers : ℕ → ItemPointerData
  nextNodeIndex : ℕ
  bytesWritten : ℕ

def finishStore (l : StoreLoop) : Outcome Fault Stored :=
  if l.state.buf = none then .fault .nullDereference
  else
    let s := closePage l.state
    .done ⟨s.pages, s.lastBlock, s.itemPointers, s.nodeId, l.bytesWritten⟩

def storeExternalIndexNodes (md : Metadata) (dim room fuel : ℕ) (pages : List Page)
    (lastDataBlock : ℕ) (data : List UInt8) (bufferSize firstNodeIndex : ℕ)
    (itemPointers : ℕ → ItemPointerData) : Outcome Fault Stored :=
  (loop (fun l => l.bytesWritten < bufferSize) (storePass md dim room data) fuel
    ⟨openPage pages lastDataBlock firstNodeIndex itemPointers, 0⟩).bind finishStore

variable {s s' t : StoreState} {data node rest : List UInt8} {md : Metadata}
  {nodes : List (List UInt8)} {b bufferSize dim : ℕ} {pages : List Page} {p : Page}

theorem stageNode_eq_done {nodeSize : ℕ} (h : stageNode data nodeSize = .done node) :
    node = data.take nodeSize ∧ node.length = nodeSize := by
  unfold stageNode at h
  split_ifs at h with hlong hshort
  cases h
  exact ⟨rfl, List.length_take_of_le (by omega)⟩

def addNode (md : Metadata) (dim : ℕ) (s : StoreState) (node : List UInt8) :
    Outcome Fault StoreState :=
  (storeNode md dim node s).bind fun t =>
    if t.forceCreatePage then storeNode md dim node t else .done t

/-- A node with exactly the bytes its header announces, that a fresh page takes. -/
structure Storable (md : Metadata) (dim : ℕ) (node : List UInt8) : Prop where
  size_eq : node.length = nodeTupleSize node dim md
  fits : FitsFreshPage node.length

theorem Storable.head_le (h : Storable md dim node) :
    10 ≤ node.length := by
  have := nodeTupleSize_pos md dim node
  rw [h.size_eq]
  exact this

theorem Storable.size_append (h : Storable md dim node) (rest : List UInt8) :
    nodeTupleSize (node ++ rest) dim md = node.length := by
  rw [nodeTupleSize_append md dim node rest h.head_le, ← h.size_eq]

theorem storeNode_eq (h : Storable md dim node) (rest : List UInt8) (s : StoreState) :
    storeNode md dim (node ++ rest) s = (preparePage node.length s).bind fun u =>
      if 100 ≤ levelFromNode node then .fault (levelTooLarge u.nodeId (levelFromNode node))
      else putNode ⟨u.nodeId, node.length, node⟩ u := by
  have hh := h.head_le
  have hlen : ¬ (node ++ rest).length < nodeHeadBytes := by
    simp [nodeHeadBytes]
    omega
  have hstage : stageNode (node ++ rest) node.length = .done node := by
    have hle := fitsFreshPage_le h.fits
    rw [stageNode, if_neg (by simp only [BLCKSZ, sizeofHnswIndexTuple]; omega), if_neg (by simp),
      List.take_left]
  unfold storeNode
  rw [if_neg hlen, h.size_append rest, levelFromNode_append node rest hh]
  simp only [hstage, Outcome.bind_done]

theorem storeNode_append (h : Storable md dim node) (rest : List UInt8) (s : StoreState) :
    storeNode md dim (node ++ rest) s = storeNode md dim node s := by
  have h0 := storeNode_eq h [] s
  rw [List.append_nil] at h0
  rw [storeNode_eq h, h0]

/-- The buffer in hand is the last data block, and a page is asked for when
    there is none. -/
structure Ready (s : StoreState) : Prop where
  buf_eq : s.buf = if s.lastBlock = InvalidBlockNumber then none else some s.lastBlock
  forced : s.lastBlock = InvalidBlockNumber → s.forceCreatePage = true
  in_range : s.lastBlock ≠ InvalidBlockNumber → 1 ≤ s.lastBlock ∧ s.lastBlock ≤ s.pages.length

def freshPage (nodeId : ℕ) : Page := ⟨dataPageSpecial, ⟨nodeId, 0, InvalidBlockNumber⟩, []⟩

theorem setPage_append (h : b ≤ pages.length) (p : Page) (extra : List Page) :
    setPage (pages ++ extra) b p = setPage pages b p ++ extra := by
  cases b with
  | zero => rfl
  | succ b => simp [setPage, show b < pages.length by omega]

def linkedPages (s : StoreState) : List Page :=
  match s.buf with
  | some b => setPage s.pages b { getPage s.pages b with special :=
      { (getPage s.pages b).special with
        nextblockno := s.pages.length + 1, lastId := s.nodeId - 1 } }
  | none => s.pages

@[simp] theorem linkedPages_length (s : StoreState) : (linkedPages s).length = s.pages.length := by
  unfold linkedPages
  split <;> simp

theorem createPage_eq (hb : ∀ b, s.buf = some b → b ≤ s.pages.length) :
    createPage s =
      if s.pages.length + 1 < InvalidBlockNumber then
        .done { s with
          pages := setPage (linkedPages s ++ [zeroPage]) (s.pages.length + 1) (freshPage s.nodeId)
          buf := some (s.pages.length + 1)
          lastBlock := s.pages.length + 1
          forceCreatePage := false }
      else .fault (.elog "cannot extend relation beyond 4294967295 blocks") := by
  unfold createPage readBufferNew
  by_cases hl : s.pages.length + 1 < InvalidBlockNumber
  · rw [if_pos hl, if_pos hl]
    cases hbuf : s.buf with
    | none => simp [updateCurrent, linkedPages, hbuf, freshPage, pageInit, dataPageSpecial]
    | some b =>
      have hle := hb b hbuf
      simp [updateCurrent, linkedPages, hbuf, freshPage, pageInit, dataPageSpecial,
        setPage_append hle, getPage_append_left hle]
  · rw [if_neg hl, if_neg hl]
    rfl

theorem Ready.buf_le (h : Ready s) : ∀ b, s.buf = some b → b ≤ s.pages.length := by
  intro b hb
  have he := h.buf_eq
  rw [hb] at he
  by_cases hl : s.lastBlock = InvalidBlockNumber
  · simp [hl] at he
  · rw [if_neg hl] at he
    cases he
    exact (h.in_range hl).2

theorem freshPage_add (n : ℕ) (t : HnswIndexTuple) (h : FitsFreshPage t.node.length) :
    pageAddItem (freshPage n) t = some ({ freshPage n with items := [t] }, 1) := by
  have he := pageAddItem_fresh ⟨n, 0, InvalidBlockNumber⟩ t
  rw [if_pos h] at he
  exact he

def recorded (s : StoreState) (b off : ℕ) (p : Page) : StoreState :=
  { s with
    pages := setPage s.pages b p
    itemPointers := Function.update s.itemPointers s.nodeId ⟨b, off⟩
    nodeId := s.nodeId + 1 }

theorem putNode_some {t : HnswIndexTuple} {off : ℕ} (hb : s.buf = some b)
    (h : pageAddItem (getPage s.pages b) t = some (p, off)) :
    putNode t s = .done (recorded s b off p) := by
  simp [putNode, hb, h, recorded]

theorem putNode_none {t : HnswIndexTuple} (hb : s.buf = some b)
    (h : pageAddItem (getPage s.pages b) t = none) :
    putNode t s = .done { s with forceCreatePage := true } := by
  simp [putNode, hb, h]

def onNewPage (s : StoreState) (node : List UInt8) : StoreState :=
  { pages := setPage (linkedPages s ++ [zeroPage]) (s.pages.length + 1)
      { freshPage s.nodeId with items := [⟨s.nodeId, node.length, node⟩] }
    buf := some (s.pages.length + 1)
    forceCreatePage := false
    lastBlock := s.pages.length + 1
    nodeId := s.nodeId + 1
    itemPointers := Function.update s.itemPointers s.nodeId ⟨s.pages.length + 1, 1⟩ }

def storeOnNewPage (s : StoreState) (node : List UInt8) : Outcome Fault StoreState :=
  if s.pages.length + 1 < InvalidBlockNumber then
    if 100 ≤ levelFromNode node then .fault (levelTooLarge s.nodeId (levelFromNode node))
    else .done (onNewPage s node)
  else .fault (.elog "cannot extend relation beyond 4294967295 blocks")

theorem storeNode_create (hn : Storable md dim node) (hs : ∀ b, s.buf = some b → b ≤ s.pages.length)
    (hc : s.forceCreatePage ∨
      pageGetFreeSpace (currentPage s) < sizeofHnswIndexTuple + node.length) :
    storeNode md dim node s = storeOnNewPage s node := by
  have he := storeNode_eq hn [] s
  rw [List.append_nil] at he
  rw [he, preparePage, if_pos hc, createPage_eq hs, storeOnNewPage]
  by_cases hl : s.pages.length + 1 < InvalidBlockNumber
  · rw [if_pos hl, if_pos hl, Outcome.bind_done]
    by_cases hlev : 100 ≤ levelFromNode node
    · rw [if_pos hlev, if_pos hlev]
    · rw [if_neg hlev, if_neg hlev]
      have hg : getPage
          (setPage (linkedPages s ++ [zeroPage]) (s.pages.length + 1) (freshPage s.nodeId))
          (s.pages.length + 1) = freshPage s.nodeId := getPage_setPage_self (by omega) (by simp) _
      have hput : ∀ u : StoreState, u.buf = some (s.pages.length + 1) →
          u.pages =
            setPage (linkedPages s ++ [zeroPage]) (s.pages.length + 1) (freshPage s.nodeId) →
          putNode ⟨s.nodeId, node.length, node⟩ u = .done (recorded u (s.pages.length + 1) 1
            { freshPage s.nodeId with items := [⟨s.nodeId, node.length, node⟩] }) := by
        intro u hbuf hpages
        apply putNode_some hbuf
        rw [hpages, hg]
        exact freshPage_add s.nodeId _ hn.fits
      rw [hput _ rfl rfl]
      simp [recorded, setPage_setPage, onNewPage]
  · rw [if_neg hl, if_neg hl]
    rfl

theorem storeNode_keep (hn : Storable md dim node) (hb : s.buf = some b)
    (hf : s.forceCreatePage = false)
    (hc : ¬ pageGetFreeSpace (getPage s.pages b) < sizeofHnswIndexTuple + node.length) :
    storeNode md dim node s =
      if 100 ≤ levelFromNode node then .fault (levelTooLarge s.nodeId (levelFromNode node))
      else match pageAddItem (getPage s.pages b) ⟨s.nodeId, node.length, node⟩ with
        | some (p, off) => .done (recorded s b off p)
        | none => .done { s with forceCreatePage := true } := by
  have he := storeNode_eq hn [] s
  rw [List.append_nil] at he
  have hp : preparePage node.length s = .done s := by
    rw [preparePage, if_neg]
    simp only [hf, currentPage, hb, Bool.false_eq_true, false_or]
    exact hc
  rw [he, hp, Outcome.bind_done]
  split
  · rfl
  · split
    · rename_i h
      exact putNode_some hb h
    · rename_i h
      exact putNode_none hb h

theorem storeNode_cases (hn : Storable md dim node) (hs : Ready s) :
    storeNode md dim node s = storeOnNewPage s node ∨
    ∃ b, s.buf = some b ∧ s.forceCreatePage = false ∧ storeNode md dim node s =
      if 100 ≤ levelFromNode node then .fault (levelTooLarge s.nodeId (levelFromNode node))
      else match pageAddItem (getPage s.pages b) ⟨s.nodeId, node.length, node⟩ with
        | some (p, off) => .done (recorded s b off p)
        | none => .done { s with forceCreatePage := true } := by
  by_cases hc : s.forceCreatePage ∨
      pageGetFreeSpace (currentPage s) < sizeofHnswIndexTuple + node.length
  · exact .inl (storeNode_create hn hs.buf_le hc)
  · obtain ⟨hf, hfree⟩ := not_or.mp hc
    have hforce : s.forceCreatePage = false := by simpa using hf
    have hl : s.lastBlock ≠ InvalidBlockNumber := fun hl => hf (hs.forced hl)
    have hb : s.buf = some s.lastBlock := by rw [hs.buf_eq, if_neg hl]
    simp only [currentPage, hb] at hfree
    exact .inr ⟨s.lastBlock, hb, hforce, storeNode_keep hn hb hforce hfree⟩

theorem storeOnNewPage_eq_done (h : storeOnNewPage s node = .done t) :
    s.pages.length + 1 < InvalidBlockNumber ∧ t = onNewPage s node := by
  unfold storeOnNewPage at h
  split at h
  · split at h
    · cases h
    · cases h
      exact ⟨by assumption, rfl⟩
  · cases h

theorem storeOnNewPage_force (s : StoreState) (node : List UInt8) (f : Bool) :
    storeOnNewPage { s with forceCreatePage := f } node = storeOnNewPage s node := rfl

theorem storeNode_done (hn : Storable md dim node) (hs : Ready s)
    (h : storeNode md dim node s = .done t) :
    (s.pages.length + 1 < InvalidBlockNumber ∧ t = onNewPage s node) ∨
    (∃ b p off, s.buf = some b ∧ s.forceCreatePage = false ∧
      pageAddItem (getPage s.pages b) ⟨s.nodeId, node.length, node⟩ = some (p, off) ∧
      t = recorded s b off p) ∨
    (s.forceCreatePage = false ∧ t = { s with forceCreatePage := true }) := by
  rcases storeNode_cases hn hs with he | ⟨b, hb, hf, he⟩
  · rw [he] at h
    exact .inl (storeOnNewPage_eq_done h)
  · rw [he] at h
    split at h
    · cases h
    · split at h
      · rename_i p off ha
        cases h
        exact .inr (.inl ⟨b, p, off, hb, hf, ha, rfl⟩)
      · cases h
        exact .inr (.inr ⟨hf, rfl⟩)

theorem Ready.onNewPage (node : List UInt8) (hl : s.pages.length + 1 < InvalidBlockNumber) :
    Ready (onNewPage s node) where
  buf_eq := by
    have hne : s.pages.length + 1 ≠ InvalidBlockNumber := by omega
    simp [StoreNodes.onNewPage, hne]
  forced := by
    intro h
    have : s.pages.length + 1 = InvalidBlockNumber := h
    omega
  in_range := by simp [StoreNodes.onNewPage]

theorem Ready.recorded {off : ℕ} (h : Ready s) :
    Ready (recorded s b off p) :=
  ⟨h.buf_eq, h.forced, by simpa [StoreNodes.recorded] using h.in_range⟩

theorem Ready.force (h : Ready s) : Ready { s with forceCreatePage := true } :=
  ⟨h.buf_eq, fun _ => rfl, h.in_range⟩

theorem storeNode_ready (hn : Storable md dim node) (hs : Ready s)
    (h : storeNode md dim node s = .done t) : Ready t := by
  rcases storeNode_done hn hs h with ⟨hl, rfl⟩ | ⟨b, p, off, -, -, -, rfl⟩ | ⟨-, rfl⟩
  · exact .onNewPage node hl
  · exact hs.recorded
  · exact hs.force

theorem storeNode_forced (hn : Storable md dim node) (hs : Ready s) (hf : s.forceCreatePage = true)
    (h : storeNode md dim node s = .done t) : t.forceCreatePage = false := by
  rw [storeNode_create hn hs.buf_le (.inl hf)] at h
  obtain ⟨-, rfl⟩ := storeOnNewPage_eq_done h
  rfl

theorem storeNode_numbered (hn : Storable md dim node) (hs : Ready s)
    (h : storeNode md dim node s = .done t) :
    t.nodeId = if t.forceCreatePage then s.nodeId else s.nodeId + 1 := by
  rcases storeNode_done hn hs h with ⟨hl, rfl⟩ | ⟨b, p, off, -, hf, -, rfl⟩ | ⟨-, rfl⟩
  · rfl
  · have hf' : (recorded s b off p).forceCreatePage = false := hf
    rw [hf']
    rfl
  · rfl

theorem addNode_done (hn : Storable md dim node) (hs : Ready s)
    (h : addNode md dim s node = .done t) :
    (s.pages.length + 1 < InvalidBlockNumber ∧ t = onNewPage s node) ∨
    (∃ b p off, s.buf = some b ∧ s.forceCreatePage = false ∧
      pageAddItem (getPage s.pages b) ⟨s.nodeId, node.length, node⟩ = some (p, off) ∧
      t = recorded s b off p) := by
  obtain ⟨u, hu, ht⟩ := Outcome.bind_eq_done.mp h
  rcases storeNode_done hn hs hu with ⟨hl, rfl⟩ | ⟨b, p, off, hb, hf, ha, rfl⟩ | ⟨-, rfl⟩
  · cases ht
    exact .inl ⟨hl, rfl⟩
  · have hf' : (recorded s b off p).forceCreatePage = false := hf
    simp only [hf', Bool.false_eq_true, if_false, Outcome.done.injEq] at ht
    exact .inr ⟨b, p, off, hb, hf, ha, ht.symm⟩
  · simp only [if_true] at ht
    rw [storeNode_create hn hs.force.buf_le (.inl rfl), storeOnNewPage_force] at ht
    exact .inl (storeOnNewPage_eq_done ht)

theorem addNode_ready (hn : Storable md dim node) (hs : Ready s)
    (h : addNode md dim s node = .done t) :
    Ready t ∧ t.forceCreatePage = false ∧ t.lastBlock ≠ InvalidBlockNumber ∧
      t.nodeId = s.nodeId + 1 := by
  rcases addNode_done hn hs h with ⟨hl, rfl⟩ | ⟨b, p, off, hb, hf, -, rfl⟩
  · refine ⟨.onNewPage node hl, rfl, ?_, rfl⟩
    intro hl'
    have : s.pages.length + 1 = InvalidBlockNumber := hl'
    omega
  · refine ⟨hs.recorded, hf, ?_, rfl⟩
    intro hl
    have := hs.forced hl
    rw [hf] at this
    cases this

theorem storeNode_outcome (hn : Storable md dim node) (hs : Ready s) :
    (∃ t, storeNode md dim node s = .done t) ∨
      ∃ text, storeNode md dim node s = .fault (.elog text) := by
  rcases storeNode_cases hn hs with h | ⟨b, -, -, h⟩
  · rw [h, storeOnNewPage]
    split_ifs
    · exact .inr ⟨_, rfl⟩
    · exact .inl ⟨_, rfl⟩
    · exact .inr ⟨_, rfl⟩
  · rw [h]
    split_ifs
    · exact .inr ⟨_, rfl⟩
    · split
      · exact .inl ⟨_, rfl⟩
      · exact .inl ⟨_, rfl⟩

theorem addNode_outcome (hn : Storable md dim node) (hs : Ready s) :
    (∃ t, addNode md dim s node = .done t) ∨
      ∃ text, addNode md dim s node = .fault (.elog text) := by
  rw [addNode]
  rcases storeNode_outcome hn hs with ⟨t, ht⟩ | ⟨text, ht⟩
  · rw [ht, Outcome.bind_done]
    split
    · exact storeNode_outcome hn (storeNode_ready hn hs ht)
    · exact .inl ⟨t, rfl⟩
  · exact .inr ⟨text, by rw [ht]; rfl⟩

/-- `nodes` are the nodes that a loop bounded by `bufferSize` handles from
    offset `w` on: it stops behind the last one and not earlier. -/
structure Reaches (bufferSize w : ℕ) (nodes : List (List UInt8)) : Prop where
  stops : bufferSize ≤ w + nodes.flatten.length
  starts : ∀ pre node post, nodes = pre ++ node :: post → w + pre.flatten.length < bufferSize

theorem Reaches.tail {w : ℕ} (h : Reaches bufferSize w (node :: nodes)) :
    Reaches bufferSize (w + node.length) nodes where
  stops := by
    have := h.stops
    simp at this ⊢
    omega
  starts := by
    rintro pre node' post rfl
    have := h.starts (node :: pre) node' post rfl
    simp at this ⊢
    omega

theorem storePass_node {room w : ℕ} (hn : Storable md dim node) (hd : data.drop w = node ++ rest) :
    storePass md dim room data ⟨s, w⟩ = (storeNode md dim node s).bind fun t =>
      if t.forceCreatePage then .done ⟨t, w⟩
      else if room < t.nodeId then .fault .writePastBuffer else .done ⟨t, w + node.length⟩ := by
  simp only [storePass, hd, storeNode_append hn, hn.size_append]

theorem loop_eq_fold {room : ℕ} (hn : ∀ node ∈ nodes, Storable md dim node) {w fuel : ℕ}
    (hs : Ready s) (hd : data.drop w = nodes.flatten ++ rest) (hr : Reaches bufferSize w nodes)
    (hroom : s.nodeId + nodes.length ≤ room) (hf : 2 * nodes.length < fuel) :
    loop (fun l => l.bytesWritten < bufferSize) (storePass md dim room data) fuel ⟨s, w⟩ =
      (foldSteps (addNode md dim) nodes s).map fun t => ⟨t, w + nodes.flatten.length⟩ := by
  induction nodes generalizing w fuel s with
  | nil =>
    obtain ⟨fuel, rfl⟩ : ∃ f, fuel = f + 1 := ⟨fuel - 1, by omega⟩
    have := hr.stops
    rw [loop_exit (by simpa using this)]
    simp [foldSteps]
  | cons node nodes ih =>
    have hnode := hn node List.mem_cons_self
    have hw : w < bufferSize := by simpa using hr.starts [] node nodes rfl
    have hd' : data.drop w = node ++ (nodes.flatten ++ rest) := by simpa using hd
    have hdrop : data.drop (w + node.length) = nodes.flatten ++ rest := by
      rw [← List.drop_drop, hd', List.drop_left]
    have next : ∀ {t : StoreState} {f : ℕ}, Ready t → t.nodeId = s.nodeId + 1 →
        2 * nodes.length < f →
        loop (fun l => l.bytesWritten < bufferSize) (storePass md dim room data) f
            ⟨t, w + node.length⟩ =
          (foldSteps (addNode md dim) nodes t).map fun t =>
            ⟨t, w + (node :: nodes).flatten.length⟩ := by
      intro t f ht hid hf'
      have := ih (fun n hn' => hn n (List.mem_cons_of_mem _ hn')) ht hdrop hr.tail
        (by simp at hroom; omega) hf'
      simpa [Nat.add_assoc] using this
    have hin : ∀ {t : StoreState}, t.nodeId = s.nodeId + 1 → ¬ room < t.nodeId := by
      intro t hid
      simp at hroom
      omega
    obtain ⟨fuel, rfl⟩ : ∃ f, fuel = f + 2 := ⟨fuel - 2, by simp at hf; omega⟩
    have hfuel : 2 * nodes.length < fuel := by simp at hf; omega
    rw [loop_enter (by simpa using hw), storePass_node hnode hd', foldSteps, addNode]
    cases hst : storeNode md dim node s with
    | fault e => rfl
    | unfinished => rfl
    | done t =>
      have ht := storeNode_ready hnode hs hst
      have hid := storeNode_numbered hnode hs hst
      by_cases htf : t.forceCreatePage = true
      · -- refused: one more pass, on a page of its own
        rw [if_pos htf] at hid
        simp only [htf, if_true, Outcome.bind_done]
        rw [loop_enter (by simpa using hw), storePass_node hnode hd']
        cases hst' : storeNode md dim node t with
        | fault e => rfl
        | unfinished => rfl
        | done u =>
          have huf := storeNode_forced hnode ht htf hst'
          have hidu := storeNode_numbered hnode ht hst'
          rw [if_neg (by simp [huf]), hid] at hidu
          simp only [huf, Bool.false_eq_true, if_false, hin hidu, Outcome.bind_done]
          exact next (storeNode_ready hnode ht hst') hidu hfuel
      · rw [if_neg htf] at hid
        simp only [htf, if_false, hin hid, Outcome.bind_done, Bool.false_eq_true]
        exact next ht hid (by omega)

theorem foldSteps_ready (hn : ∀ node ∈ nodes, Storable md dim node) (hs : Ready s)
    (h : foldSteps (addNode md dim) nodes s = .done t) :
    Ready t ∧ t.nodeId = s.nodeId + nodes.length ∧
      (nodes ≠ [] → t.forceCreatePage = false ∧ t.lastBlock ≠ InvalidBlockNumber) := by
  induction nodes generalizing s with
  | nil =>
    cases h
    exact ⟨hs, rfl, fun hne => absurd rfl hne⟩
  | cons node nodes ih =>
    obtain ⟨u, hu, ht⟩ := Outcome.bind_eq_done.mp h
    obtain ⟨hru, hfu, hlu, hnu⟩ := addNode_ready (hn node List.mem_cons_self) hs hu
    obtain ⟨hrt, hnt, hft⟩ := ih (fun n hn' => hn n (List.mem_cons_of_mem _ hn')) hru ht
    refine ⟨hrt, by rw [hnt, hnu]; simp; omega, fun _ => ?_⟩
    by_cases hne : nodes = []
    · subst hne
      cases ht
      exact ⟨hfu, hlu⟩
    · exact hft hne

theorem foldSteps_outcome (hn : ∀ node ∈ nodes, Storable md dim node) (hs : Ready s) :
    (∃ t, foldSteps (addNode md dim) nodes s = .done t) ∨
      ∃ text, foldSteps (addNode md dim) nodes s = .fault (.elog text) := by
  induction nodes generalizing s with
  | nil => exact .inl ⟨s, rfl⟩
  | cons node nodes ih =>
    have hnode := hn node List.mem_cons_self
    rw [foldSteps]
    rcases addNode_outcome hnode hs with ⟨t, ht⟩ | ⟨text, ht⟩
    · rw [ht]
      exact ih (fun n h => hn n (List.mem_cons_of_mem _ h)) (addNode_ready hnode hs ht).1
    · exact .inr ⟨text, by rw [ht]; rfl⟩

theorem addNode_total (hn : Storable md dim node) (hs : Ready s) (hlev : levelFromNode node < 100)
    (hlen : s.pages.length + 1 < InvalidBlockNumber) :
    ∃ t, addNode md dim s node = .done t ∧ t.pages.length ≤ s.pages.length + 1 := by
  have hnew : storeOnNewPage s node = .done (onNewPage s node) := by
    rw [storeOnNewPage, if_pos hlen, if_neg (by omega)]
  have hnewlen : (onNewPage s node).pages.length = s.pages.length + 1 := by simp [onNewPage]
  rcases storeNode_cases hn hs with he | ⟨b, hb, hf, he⟩
  · refine ⟨onNewPage s node, ?_, hnewlen.le⟩
    rw [addNode, he, hnew]
    rfl
  · rw [if_neg (by omega)] at he
    cases ha : pageAddItem (getPage s.pages b) ⟨s.nodeId, node.length, node⟩ with
    | some r =>
      refine ⟨recorded s b r.2 r.1, ?_, by simp [recorded]⟩
      rw [addNode, he, ha]
      simp [recorded, hf]
    | none =>
      refine ⟨onNewPage s node, ?_, hnewlen.le⟩
      rw [addNode, he, ha]
      simp only [Outcome.bind_done, if_true]
      rw [storeNode_create hn hs.force.buf_le (.inl rfl), storeOnNewPage_force, hnew]

theorem foldSteps_total (hn : ∀ node ∈ nodes, Storable md dim node)
    (hlev : ∀ node ∈ nodes, levelFromNode node < 100) (hs : Ready s)
    (hlen : s.pages.length + nodes.length < InvalidBlockNumber) :
    ∃ t, foldSteps (addNode md dim) nodes s = .done t ∧
      t.pages.length ≤ s.pages.length + nodes.length := by
  induction nodes generalizing s with
  | nil => exact ⟨s, rfl, le_refl _⟩
  | cons node nodes ih =>
    have hnode := hn node List.mem_cons_self
    rw [List.length_cons] at hlen
    obtain ⟨t, ht, htl⟩ := addNode_total hnode hs (hlev node List.mem_cons_self) (by omega)
    obtain ⟨u, hu, hul⟩ := ih (fun n h => hn n (List.mem_cons_of_mem _ h))
      (fun n h => hlev n (List.mem_cons_of_mem _ h)) (addNode_ready hnode hs ht).1 (by omega)
    refine ⟨u, by rw [foldSteps, ht]; exact hu, ?_⟩
    rw [List.length_cons]
    omega

theorem Ready.openPage {lastDataBlock first : ℕ} {ips : ℕ → ItemPointerData}
    (h : lastDataBlock ≠ InvalidBlockNumber → 1 ≤ lastDataBlock ∧ lastDataBlock ≤ pages.length) :
    Ready (openPage pages lastDataBlock first ips) where
  buf_eq := rfl
  forced := by
    intro hl
    simpa [StoreNodes.openPage] using hl
  in_range := h

theorem storeExternalIndexNodes_eq {room fuel : ℕ} {lastDataBlock first : ℕ}
    {ips : ℕ → ItemPointerData} (hn : ∀ node ∈ nodes, Storable md dim node) (hne : nodes ≠ [])
    (hl : lastDataBlock ≠ InvalidBlockNumber → 1 ≤ lastDataBlock ∧ lastDataBlock ≤ pages.length)
    (hr : Reaches bufferSize 0 nodes) (hroom : first + nodes.length ≤ room)
    (hf : 2 * nodes.length < fuel) :
    storeExternalIndexNodes md dim room fuel pages lastDataBlock (nodes.flatten ++ rest) bufferSize
        first ips =
      (foldSteps (addNode md dim) nodes (openPage pages lastDataBlock first ips)).map fun t =>
        ⟨(closePage t).pages, t.lastBlock, t.itemPointers, t.nodeId, nodes.flatten.length⟩ := by
  have hready := @Ready.openPage pages lastDataBlock first ips hl
  rw [storeExternalIndexNodes, loop_eq_fold hn hready rfl hr hroom hf]
  cases h : foldSteps (addNode md dim) nodes (openPage pages lastDataBlock first ips) with
  | fault e => rfl
  | unfinished => rfl
  | done t =>
    obtain ⟨hrt, -, hft⟩ := foldSteps_ready hn hready h
    obtain ⟨-, hlt⟩ := hft hne
    have hb : t.buf = some t.lastBlock := by rw [hrt.buf_eq, if_neg hlt]
    simp [finishStore, hb, closePage, updateCurrent]

def closed (nodeId : ℕ) (p : Page) : Page :=
  { p with special := { p.special with lastId := nodeId - 1 } }

theorem closePage_of_buf (h : s.buf = some b) :
    closePage s = { s with pages := setPage s.pages b (closed s.nodeId (getPage s.pages b)) } := by
  simp [closePage, updateCurrent, h, closed]

theorem closePage_of_none (h : s.buf = none) : closePage s = s := by
  simp [closePage, updateCurrent, h]

theorem Ready.buf_cases (h : Ready s) :
    (s.lastBlock = InvalidBlockNumber ∧ s.buf = none) ∨
    (s.lastBlock ≠ InvalidBlockNumber ∧ s.buf = some s.lastBlock ∧ 0 < s.lastBlock ∧
      s.lastBlock ≤ s.pages.length) := by
  have hb := h.buf_eq
  by_cases hl : s.lastBlock = InvalidBlockNumber
  · exact .inl ⟨hl, by rw [hb, if_pos hl]⟩
  · obtain ⟨h1, h2⟩ := h.in_range hl
    exact .inr ⟨hl, by rw [hb, if_neg hl], h1, h2⟩

theorem Ready.closePage (h : Ready s) : Ready (closePage s) := by
  rcases h.buf_cases with ⟨-, hb⟩ | ⟨hl, hb, h1, h2⟩
  · rw [closePage_of_none hb]
    exact h
  · rw [closePage_of_buf hb]
    exact ⟨h.buf_eq, h.forced, by simpa using h.in_range⟩

theorem closePage_idem (h : Ready s) :
    StoreNodes.closePage (StoreNodes.closePage s) = StoreNodes.closePage s := by
  rcases h.buf_cases with ⟨-, hb⟩ | ⟨hl, hb, h1, h2⟩
  · rw [closePage_of_none hb, closePage_of_none hb]
  · have hcb : (StoreNodes.closePage s).buf = some s.lastBlock := by
      rw [closePage_of_buf hb]
      exact hb
    rw [closePage_of_buf hcb, closePage_of_buf hb]
    simp only [getPage_setPage_self h1 h2, setPage_setPage]
    rfl

theorem linkedPages_closePage (h : Ready s) :
    linkedPages (StoreNodes.closePage s) = linkedPages s := by
  rcases h.buf_cases with ⟨-, hb⟩ | ⟨hl, hb, h1, h2⟩
  · rw [closePage_of_none hb]
  · rw [closePage_of_buf hb]
    simp only [linkedPages, hb, getPage_setPage_self h1 h2, setPage_setPage, setPage_length]
    rfl

theorem closePage_pages_length (s : StoreState) : (closePage s).pages.length = s.pages.length := by
  unfold closePage updateCurrent
  split <;> simp

theorem Ready.closed_range (h : Ready s) : s.lastBlock = InvalidBlockNumber ∨
    1 ≤ s.lastBlock ∧ s.lastBlock ≤ (StoreNodes.closePage s).pages.length := by
  rw [closePage_pages_length]
  rcases h.buf_cases with ⟨hl, -⟩ | ⟨-, -, h1, h2⟩
  · exact .inl hl
  · exact .inr ⟨h1, h2⟩

theorem storeOnNewPage_closePage (h : Ready s) (node : List UInt8) :
    storeOnNewPage (closePage s) node = storeOnNewPage s node := by
  have hlen := closePage_pages_length s
  have hlink := linkedPages_closePage h
  have hid : (closePage s).nodeId = s.nodeId := by
    unfold closePage updateCurrent
    split <;> rfl
  have hip : (closePage s).itemPointers = s.itemPointers := by
    unfold closePage updateCurrent
    split <;> rfl
  simp only [storeOnNewPage, onNewPage, hlen, hlink, hid, hip]

theorem closePage_recorded {off : ℕ} (h : s.buf = some b) (hb : 0 < b) (hl : b ≤ s.pages.length) :
    closePage (recorded s b off p) =
      { recorded s b off p with pages := setPage s.pages b (closed (s.nodeId + 1) p) } := by
  have hbuf : (recorded s b off p).buf = some b := h
  rw [closePage_of_buf hbuf]
  simp only [recorded, getPage_setPage_self hb hl, setPage_setPage]

theorem storeNode_closePage (hn : Storable md dim node) (hs : Ready s) :
    (storeNode md dim node (closePage s)).map closePage =
    (storeNode md dim node s).map closePage := by
  rcases hs.buf_cases with ⟨-, hb⟩ | ⟨hl, hb, h1, h2⟩
  · rw [closePage_of_none hb]
  · have hclose := closePage_of_buf hb
    have hpage :
        getPage (closePage s).pages s.lastBlock =
        closed s.nodeId (getPage s.pages s.lastBlock) := by
      rw [hclose]
      exact getPage_setPage_self h1 h2 _
    have hcb : (closePage s).buf = some s.lastBlock := by rw [hclose]; exact hb
    have hcur : pageGetFreeSpace (currentPage (closePage s)) =
        pageGetFreeSpace (currentPage s) := by
      simp only [currentPage, hcb, hb, hpage]
      rfl
    have hcf : (closePage s).forceCreatePage = s.forceCreatePage := by rw [hclose]
    by_cases hc : s.forceCreatePage ∨
        pageGetFreeSpace (currentPage s) < sizeofHnswIndexTuple + node.length
    · rw [storeNode_create hn hs.buf_le hc,
        storeNode_create hn hs.closePage.buf_le (by rw [hcf, hcur]; exact hc),
        storeOnNewPage_closePage hs]
    · obtain ⟨hf, hfree⟩ := not_or.mp hc
      have hforce : s.forceCreatePage = false := by simpa using hf
      rw [currentPage, hb] at hfree
      have hfree' : ¬ pageGetFreeSpace (getPage (closePage s).pages s.lastBlock) <
          sizeofHnswIndexTuple + node.length := by
        rw [hpage]
        exact hfree
      rw [storeNode_keep hn hb hforce hfree, storeNode_keep hn hcb (hcf.trans hforce) hfree', hpage]
      have hid : (closePage s).nodeId = s.nodeId := by rw [hclose]
      rw [hid, closed, pageAddItem_special]
      split
      · rfl
      · cases ha : pageAddItem (getPage s.pages s.lastBlock) ⟨s.nodeId, node.length, node⟩ with
        | none =>
          simp only [Option.map_none, Outcome.map_done, hclose]
          have hbuf : ∀ ps, (⟨ps, s.buf, true, s.lastBlock, s.nodeId, s.itemPointers⟩ :
              StoreState).buf = some s.lastBlock := fun _ => hb
          rw [closePage_of_buf (hbuf _), closePage_of_buf (hbuf _)]
          simp only [getPage_setPage_self h1 h2, setPage_setPage]
          rfl
        | some r =>
          obtain ⟨p, off⟩ := r
          simp only [Option.map_some, Outcome.map_done]
          rw [closePage_recorded hb h1 h2,
            closePage_recorded hcb h1 (by rw [closePage_pages_length]; exact h2)]
          rw [(pageAddItem_eq_some ha).1]
          simp only [hclose, recorded, setPage_setPage]
          rfl

theorem storeNode_congr (hn : Storable md dim node) (hs : Ready s) (hs' : Ready s')
    (h : closePage s = closePage s') :
    (storeNode md dim node s).map closePage = (storeNode md dim node s').map closePage := by
  rw [← storeNode_closePage hn hs, ← storeNode_closePage hn hs', h]

theorem closePage_force (s : StoreState) : (closePage s).forceCreatePage = s.forceCreatePage := by
  unfold closePage updateCurrent
  split <;> rfl

theorem addNode_congr (hn : Storable md dim node) (hs : Ready s) (hs' : Ready s')
    (h : closePage s = closePage s') :
    (addNode md dim s node).map closePage = (addNode md dim s' node).map closePage := by
  simp only [addNode, Outcome.map_bind]
  refine Outcome.bind_eq_bind_of_map_eq (storeNode_congr hn hs hs' h) ?_
  intro t u ht hu htu
  have hf : t.forceCreatePage = u.forceCreatePage := by
    rw [← closePage_force t, htu, closePage_force]
  rw [hf]
  split
  · exact storeNode_congr hn (storeNode_ready hn hs ht) (storeNode_ready hn hs' hu) htu
  · simp only [Outcome.map_done, htu]

theorem foldSteps_congr (hn : ∀ node ∈ nodes, Storable md dim node) (hs : Ready s) (hs' : Ready s')
    (h : closePage s = closePage s') :
    (foldSteps (addNode md dim) nodes s).map closePage =
      (foldSteps (addNode md dim) nodes s').map closePage := by
  induction nodes generalizing s s' with
  | nil => simp only [foldSteps, Outcome.map_done, h]
  | cons node nodes ih =>
    have hnode := hn node List.mem_cons_self
    simp only [foldSteps, Outcome.map_bind]
    refine Outcome.bind_eq_bind_of_map_eq (addNode_congr hnode hs hs' h) ?_
    intro t u ht hu htu
    exact ih (fun n hn' => hn n (List.mem_cons_of_mem _ hn'))
      (addNode_ready hnode hs ht).1 (addNode_ready hnode hs' hu).1 htu

theorem openPage_closePage (h : Ready t) (hf : t.forceCreatePage = false)
    (hl : t.lastBlock ≠ InvalidBlockNumber) :
    openPage (closePage t).pages t.lastBlock t.nodeId t.itemPointers = closePage t := by
  have hb : t.buf = some t.lastBlock := by rw [h.buf_eq, if_neg hl]
  rw [closePage_of_buf hb]
  simp [openPage, hl, hf, hb]

theorem foldSteps_reopen {xs ys : List (List UInt8)} (hx : ∀ node ∈ xs, Storable md dim node)
    (hy : ∀ node ∈ ys, Storable md dim node) (hne : xs ≠ []) (hs : Ready s) :
    ((foldSteps (addNode md dim) xs s).bind fun t =>
      (foldSteps (addNode md dim) ys
        (openPage (closePage t).pages t.lastBlock t.nodeId t.itemPointers)).map closePage) =
      (foldSteps (addNode md dim) (xs ++ ys) s).map closePage := by
  rw [foldSteps_append, Outcome.map_bind]
  cases h : foldSteps (addNode md dim) xs s with
  | fault e => rfl
  | unfinished => rfl
  | done t =>
    obtain ⟨hrt, -, hft⟩ := foldSteps_ready hx hs h
    obtain ⟨hf, hl⟩ := hft hne
    rw [Outcome.bind_done, Outcome.bind_done, openPage_closePage hrt hf hl]
    exact foldSteps_congr hy hrt.closePage hrt (closePage_idem hrt)

theorem onNewPage_grown (hs : Ready s) (hlen : s.pages.length + 1 < InvalidBlockNumber) :
    Grown (closePage s).pages s.lastBlock ⟨s.nodeId, node.length, node⟩
      (closePage (onNewPage s node)).pages (s.pages.length + 1) 1 := by
  have hbuf : (onNewPage s node).buf = some (s.pages.length + 1) := rfl
  have hclosed : (closePage (onNewPage s node)).pages =
      setPage (linkedPages s ++ [zeroPage]) (s.pages.length + 1)
        (singlePage ⟨s.nodeId, node.length, node⟩) := by
    rw [closePage_of_buf hbuf]
    simp only [onNewPage, setPage_setPage]
    rw [getPage_setPage_self (by omega) (by simp)]
    rfl
  rw [hclosed, ← linkedPages_closePage hs, ← closePage_pages_length s]
  rw [← closePage_pages_length s] at hlen
  rcases hs.buf_cases with ⟨hl, hb⟩ | ⟨hl, hb, h1, h2⟩
  · have hlink : linkedPages (closePage s) = (closePage s).pages := by
      rw [closePage_of_none hb]
      simp [linkedPages, hb]
    rw [hlink]
    exact .first hl hlen
  · have hcb : (closePage s).buf = some s.lastBlock := by rw [closePage_of_buf hb]; exact hb
    have hlink : linkedPages (closePage s) = setPage (closePage s).pages s.lastBlock
        (relinkedPage (getPage (closePage s).pages s.lastBlock)
          ((closePage s).pages.length + 1)) := by
      simp only [linkedPages, hcb]
      rw [closePage_of_buf hb]
      simp only [getPage_setPage_self h1 h2, setPage_setPage]
      rfl
    rw [hlink]
    exact .new hl hlen

theorem recorded_grown {off : ℕ} (hs : Ready s) (hb : s.buf = some s.lastBlock)
    (hl : s.lastBlock ≠ InvalidBlockNumber)
    (ha : pageAddItem (getPage s.pages s.lastBlock) ⟨s.nodeId, node.length, node⟩ = some (p, off)) :
    Grown (closePage s).pages s.lastBlock ⟨s.nodeId, node.length, node⟩
      (closePage (recorded s s.lastBlock off p)).pages s.lastBlock off := by
  obtain ⟨h1, h2⟩ := hs.in_range hl
  have hpage : getPage (closePage s).pages s.lastBlock =
      closed s.nodeId (getPage s.pages s.lastBlock) := by
    rw [closePage_of_buf hb]
    exact getPage_setPage_self h1 h2 _
  have hadd : pageAddItem (getPage (closePage s).pages s.lastBlock) ⟨s.nodeId, node.length, node⟩ =
      some (closed s.nodeId p, off) := by
    rw [hpage, closed, pageAddItem_special, ha, (pageAddItem_eq_some ha).1]
    rfl
  have hpages : (closePage (recorded s s.lastBlock off p)).pages =
      setPage (closePage s).pages s.lastBlock
        (extendedPage (getPage (closePage s).pages s.lastBlock) ⟨s.nodeId, node.length, node⟩) := by
    rw [closePage_recorded hb h1 h2, hpage, closePage_of_buf hb, (pageAddItem_eq_some ha).1]
    simp only [setPage_setPage]
    rfl
  rw [hpages]
  exact .last hl hadd

theorem addNode_grown (hn : Storable md dim node) (hs : Ready s)
    (h : addNode md dim s node = .done t) :
    ∃ off, Grown (closePage s).pages s.lastBlock ⟨s.nodeId, node.length, node⟩
        (closePage t).pages t.lastBlock off ∧
      t.itemPointers = Function.update s.itemPointers s.nodeId ⟨t.lastBlock, off⟩ := by
  rcases addNode_done hn hs h with ⟨hlen, rfl⟩ | ⟨b, p, off, hb, -, ha, rfl⟩
  · exact ⟨1, onNewPage_grown hs hlen, rfl⟩
  · rcases hs.buf_cases with ⟨-, hb'⟩ | ⟨hl, hb', -, -⟩
    · rw [hb] at hb'
      cases hb'
    · obtain rfl : b = s.lastBlock := by
        rw [hb] at hb'
        exact Option.some.inj hb'
      exact ⟨off, recorded_grown hs hb hl ha, rfl⟩

end Lantern.StoreNodes
