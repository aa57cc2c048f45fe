import Lantern.StoreRewrite

set_option autoImplicit false

/-!
# Inserting one tuple

An insert works on copies of pages. The header, the last data page and a new
page are registered with the insert's own WAL record; pages whose nodes usearch
changes are registered with further records of at most four pages. Nothing but
the allocation of a block reaches the relation before the records are finished.
-/
namespace Lantern.InsertTuple
open FuelLoop ByteStrings NodeLayout PageLayout IndexRelation PageChain

def MAX_GENERIC_XLOG_PAGES : ℕ := 4
def LDB_HNSW_INSERT_MAX_EXTRA_DIRTIED_BUFS : ℕ := 100
def LDB_HNSW_EXTRA_DIRTIED_MAX_WAL_RECORDS : ℕ :=
  (LDB_HNSW_INSERT_MAX_EXTRA_DIRTIED_BUFS + MAX_GENERIC_XLOG_PAGES - 1) / MAX_GENERIC_XLOG_PAGES

/-- A registered copy. `walState` is `none` for the insert's own record. -/
structure DirtiedPage where
  blockno : ℕ
  page : Page
  walState : Option ℕ

structure ExtraDirtiedBufs where
  bufs : List DirtiedPage
  stateSize : ℕ
  pagesInTheLastState : ℕ

def extraDirtiedNew : ExtraDirtiedBufs := ⟨[], 0, MAX_GENERIC_XLOG_PAGES⟩

def extraDirtiedAdd (ed : ExtraDirtiedBufs) (d : DirtiedPage) : Outcome Fault ExtraDirtiedBufs :=
  if ed.bufs.length + 1 < LDB_HNSW_INSERT_MAX_EXTRA_DIRTIED_BUFS then
    .done { ed with bufs := ed.bufs ++ [d] }
  else
    .fault (.assertFailed "ed->extra_dirtied_size + 1 < LDB_HNSW_INSERT_MAX_EXTRA_DIRTIED_BUFS")

def extraDirtiedGet (ed : ExtraDirtiedBufs) (blockno : ℕ) : Option Page :=
  (ed.bufs.find? fun d => d.blockno = blockno).map (·.page)

def writeDirtied (blockno : ℕ) (f : Page → Page) : List DirtiedPage → List DirtiedPage
  | [] => []
  | d :: ds =>
    if d.blockno = blockno then { d with page := f d.page } :: ds
    else d :: writeDirtied blockno f ds

def ExtraDirtiedBufs.write (ed : ExtraDirtiedBufs) (blockno : ℕ) (f : Page → Page) :
    ExtraDirtiedBufs :=
  { ed with bufs := writeDirtied blockno f ed.bufs }

def openWalState (ed : ExtraDirtiedBufs) : Outcome Fault ExtraDirtiedBufs :=
  if ed.pagesInTheLastState = MAX_GENERIC_XLOG_PAGES then
    if ed.stateSize < LDB_HNSW_EXTRA_DIRTIED_MAX_WAL_RECORDS then
      .done { ed with stateSize := ed.stateSize + 1, pagesInTheLastState := 0 }
    else .fault (.elog
      "LanternDB invariant violation: too many dirtied bufs to fit in extra_dirtied WAL records")
  else .done ed

def extraDirtiedAddWalReadBuffer (ed : ExtraDirtiedBufs) (pages : List Page) (blockno : ℕ) :
    Outcome Fault ExtraDirtiedBufs :=
  (openWalState ed).bind fun ed =>
    if blockno = 0 ∨ pages.length < blockno then .fault (.elog "could not read block")
    else extraDirtiedAdd { ed with pagesInTheLastState := ed.pagesInTheLastState + 1 }
      ⟨blockno, getPage pages blockno, some (ed.stateSize - 1)⟩

/-- `pages` are the blocks of the relation, `hdr` is the copy of the header. -/
structure InsertState where
  pages : List Page
  hdr : HnswIndexHeaderPage
  ed : ExtraDirtiedBufs

def hnswIndexPageAddVector (page : Page) (t : HnswIndexTuple) : Outcome Fault (Page × ℕ) :=
  match pageAddItem page t with
  | none => .fault (.elog
      "LanternDB invariant violation: unexpectedly could not add item to the last existing page")
  | some (p, insertedAt) =>
    if pageGetMaxOffsetNumber p = 1 then
      .done ({ p with special := ⟨t.seqid, t.seqid, InvalidBlockNumber⟩ }, insertedAt)
    else if p.special.lastId + 1 ≠ t.seqid then
      .fault (.assertFailed "special_block->lastId == new_vector_data->seqid - 1")
    else if p.special.nextblockno ≠ InvalidBlockNumber then
      .fault (.assertFailed "special_block->nextblockno == InvalidBlockNumber")
    else .done ({ p with special := { p.special with lastId := p.special.lastId + 1 } }, insertedAt)

/-- Steps 1 and 4: a new block, registered and initialised, takes the tuple. -/
def addOnNewBlock (t : HnswIndexTuple) (blockno : ℕ) (st : InsertState) :
    Outcome Fault (InsertState × ItemPointerData) :=
  let page := pageInit sizeofHnswIndexPageSpecialBlock
  (extraDirtiedAdd st.ed ⟨blockno, page, none⟩).bind fun ed =>
    (hnswIndexPageAddVector page t).bind fun (p, off) =>
      .done (⟨st.pages, { st.hdr with lastDataBlock := blockno }, ed.write blockno fun _ => p⟩,
        ⟨blockno, off⟩)

def registerLastPage (st : InsertState) : Outcome Fault ExtraDirtiedBufs :=
  let last := st.hdr.lastDataBlock
  match extraDirtiedGet st.ed last with
  | some _ => .done st.ed
  | none => extraDirtiedAdd st.ed ⟨last, getPage st.pages last, none⟩

def placeTuple (t : HnswIndexTuple) (st : InsertState) :
    Outcome Fault (InsertState × ItemPointerData) :=
  let last := st.hdr.lastDataBlock
  if last = InvalidBlockNumber then
    (readBufferNew st.pages).bind fun (blockno, pages) =>
      addOnNewBlock t blockno { st with pages := pages }
  else
    (registerLastPage st).bind fun ed =>
      let page := (extraDirtiedGet ed last).getD zeroPage
      if sizeofItemIdData + sizeofHnswIndexTuple + t.size < pageGetFreeSpace page then
        (hnswIndexPageAddVector page t).bind fun (p, off) =>
          .done ({ st with ed := ed.write last fun _ => p }, ⟨last, off⟩)
      else
        (readBufferNew st.pages).bind fun (blockno, pages) =>
          addOnNewBlock t blockno
            { st with pages := pages, ed := ed.write last fun p => relinkedPage p blockno }

def prepareIndexTuple (md : Metadata) (newTupleId newTupleLevel : ℕ) (st : InsertState) :
    Outcome Fault (InsertState × ItemPointerData) :=
  let size := usearchNodeBytes md (st.hdr.vectorDim * 4) newTupleLevel
  (placeTuple ⟨newTupleId, size, List.replicate size 0⟩ st).map
    fun (st, slot) => ({ st with hdr := { st.hdr with numVectors := st.hdr.numVectors + 1 } }, slot)

def setItemNode (f : List UInt8 → List UInt8) (posid : ℕ) (p : Page) : Page :=
  { p with items := p.items.modify (posid - 1) fun t => { t with node := f t.node } }

def registerMut (blockno : ℕ) (st : InsertState) : Outcome Fault ExtraDirtiedBufs :=
  match extraDirtiedGet st.ed blockno with
  | some _ => .done st.ed
  | none => extraDirtiedAddWalReadBuffer st.ed st.pages blockno

def writeNodeMut (tid : ItemPointerData) (f : List UInt8 → List UInt8) (st : InsertState) :
    Outcome Fault InsertState :=
  (registerMut tid.block st).bind fun ed =>
  if tid.posid = 0 ∨ ((extraDirtiedGet ed tid.block).getD zeroPage).items.length < tid.posid then
    .fault .readPastBuffer
  else .done { st with ed := ed.write tid.block (setItemNode f tid.posid) }

def usearchInitNode (size label level : ℕ) : List UInt8 :=
  leBytes 8 label ++ leBytes 2 level ++ List.replicate (size - nodeHeadBytes) 0

/-- What usearch writes into a node: its vector, or the neighbours of a level. -/
inductive NodeEdit where
  | storeVector (bytes : List UInt8)
  | setNeighbors (level : ℕ) (slots : List ItemPointerData)

def neighborListBytes (slots : List ItemPointerData) : List UInt8 :=
  leBytes 4 slots.length ++ slots.flatMap itemPointerBytes

def NodeEdit.apply (md : Metadata) : NodeEdit → List UInt8 → List UInt8
  | .storeVector bytes, node => patch (nodeSizeBytes md (levelFromNode node)) bytes node
  | .setNeighbors level slots, node =>
    patch (neighborsOffset md level) (neighborListBytes slots) node

/-- The choices made outside of the modelled code: the random level, the label
    and what usearch does when told the slot of the new node. -/
structure UsearchAdd where
  level : ℕ
  level_le : level ≤ 32767
  label : ℕ
  edits : ItemPointerData → List (ItemPointerData × NodeEdit)
  header : ItemPointerData → UsearchHeader
  error : Option String

structure WalRecord where
  header : Option HnswIndexHeaderPage
  pages : List (ℕ × Page)

def statePages (ed : ExtraDirtiedBufs) (s : Option ℕ) : List (ℕ × Page) :=
  (ed.bufs.filter fun d => d.walState = s).map fun d => (d.blockno, d.page)

def walRecords (st : InsertState) : List WalRecord :=
  ⟨some st.hdr, statePages st.ed none⟩ ::
    (List.range st.ed.stateSize).map fun i => ⟨none, statePages st.ed (some i)⟩

/-- Redo reads a block that does not exist yet as a page of zeros. -/
def writeBlock (pages : List Page) (w : ℕ × Page) : List Page :=
  setPage (pages ++ List.replicate (w.1 - pages.length) zeroPage) w.1 w.2

def applyRecord (r : Rel) (rec : WalRecord) : Rel :=
  ⟨rec.header.getD r.header, rec.pages.foldl writeBlock r.pages⟩

def editNodes (md : Metadata) : List (ItemPointerData × NodeEdit) → InsertState →
      Outcome Fault InsertState :=
  foldSteps fun st e => writeNodeMut e.1 (e.2.apply md) st

def insertWork (md : Metadata) (r : Rel) (add : UsearchAdd) : Outcome Fault InsertState :=
  if r.header.version ≠ LDB_WAL_VERSION_NUMBER then
    .fault (.elog "unsupported or outdated wal version. Please reindex")
  else
    (prepareIndexTuple md r.header.numVectors add.level ⟨r.pages, r.header, extraDirtiedNew⟩).bind
      fun (st, slot) =>
    let size := usearchNodeBytes md (r.header.vectorDim * 4) add.level
    (writeNodeMut slot (fun _ => usearchInitNode size add.label add.level) st).bind fun st =>
    (editNodes md (add.edits slot) st).bind fun st =>
      match add.error with
      | some text => .fault (.elog ("usearch insert error: " ++ text))
      | none => .done { st with hdr := { st.hdr with usearchHeader := add.header slot } }

def finishInsert (r : Rel) (st : InsertState) : Rel :=
  (walRecords st).foldl applyRecord ⟨r.header, st.pages⟩

variable {st : InsertState} {t : HnswIndexTuple} {bufs : List DirtiedPage} {slot : ItemPointerData}
  {md : Metadata} {d : DirtiedPage} {r : Rel} {w : ℕ × Page}

theorem getPage_writeBlock (hw : 1 ≤ w.1) (pages : List Page) (b : ℕ) :
    getPage (writeBlock pages w) b = if b = w.1 then w.2 else getPage pages b := by
  unfold writeBlock
  split
  · rename_i hb
    rw [hb, getPage_setPage_self (by omega) (by simp; omega)]
  · rename_i hb
    rw [getPage_setPage_ne hb, getPage_append_replicate]

theorem getPage_writeBlocks {ws : List (ℕ × Page)} (g : ℕ → Page)
    (h : ∀ w ∈ ws, 1 ≤ w.1 ∧ w.2 = g w.1) (pages : List Page) (b : ℕ) :
    getPage (ws.foldl writeBlock pages) b = if b ∈ ws.map Prod.fst then g b
      else getPage pages b := by
  induction ws generalizing pages with
  | nil => simp
  | cons w ws ih =>
    obtain ⟨hw, hg⟩ := h w List.mem_cons_self
    rw [List.foldl_cons, ih (fun v hv => h v (List.mem_cons_of_mem _ hv)), getPage_writeBlock hw]
    by_cases hb : b = w.1
    · subst hb
      simp [hg]
    · simp only [List.map_cons, List.mem_cons, hb, false_or, if_false]

theorem writeBlocks_length {ws : List (ℕ × Page)} {pages : List Page}
    (h : ∀ w ∈ ws, w.1 ≤ pages.length) : (ws.foldl writeBlock pages).length = pages.length := by
  induction ws generalizing pages with
  | nil => rfl
  | cons w ws ih =>
    have hw := h w List.mem_cons_self
    have hlen : (writeBlock pages w).length = pages.length := by
      simp [writeBlock]
      omega
    rw [List.foldl_cons, ih fun v hv => by rw [hlen]; exact h v (List.mem_cons_of_mem _ hv), hlen]

section Dirtied
variable {ed : ExtraDirtiedBufs} {b : ℕ}

theorem extraDirtiedGet_mem {p : Page} (h : extraDirtiedGet ed b = some p) :
    ∃ d ∈ ed.bufs, d.blockno = b ∧ d.page = p := by
  obtain ⟨d, hd, rfl⟩ := Option.map_eq_some_iff.mp h
  exact ⟨d, List.mem_of_find?_eq_some hd, by simpa using List.find?_some hd, rfl⟩

theorem extraDirtiedGet_none (h : extraDirtiedGet ed b = none) : ∀ d ∈ ed.bufs, d.blockno ≠ b := by
  intro d hd
  have hn : ed.bufs.find? (fun d => d.blockno = b) = none := by simpa [extraDirtiedGet] using h
  simpa using List.find?_eq_none.mp hn d hd

theorem find?_key {α : Type} (key : α → ℕ) {es : List α} (hn : (es.map key).Nodup) {b : ℕ} {e : α} :
    es.find? (fun e => key e = b) = some e ↔ e ∈ es ∧ key e = b := by
  constructor
  · intro h
    exact ⟨List.mem_of_find?_eq_some h, by simpa using List.find?_some h⟩
  · rintro ⟨hmem, rfl⟩
    induction es with
    | nil => cases hmem
    | cons d es ih =>
      rw [List.map_cons, List.nodup_cons] at hn
      rcases List.mem_cons.mp hmem with rfl | hmem
      · simp
      · have hne : key d ≠ key e := fun he => hn.1 (he ▸ List.mem_map_of_mem hmem)
        rw [List.find?_cons_of_neg (by simpa using hne)]
        exact ih hn.2 hmem

theorem extraDirtiedGet_of_mem (hn : (ed.bufs.map (·.blockno)).Nodup) (hd : d ∈ ed.bufs) :
    extraDirtiedGet ed d.blockno = some d.page := by
  unfold extraDirtiedGet
  rw [(find?_key (·.blockno) hn).mpr ⟨hd, rfl⟩, Option.map_some]

theorem writeDirtied_blocknos (b : ℕ) (f : Page → Page) (bufs : List DirtiedPage) :
    (writeDirtied b f bufs).map (·.blockno) = bufs.map (·.blockno) := by
  induction bufs with
  | nil => rfl
  | cons d bufs ih =>
    simp only [writeDirtied]
    split
    · rfl
    · rw [List.map_cons, ih, List.map_cons]

theorem mem_writeDirtied {b : ℕ} {f : Page → Page} (h : d ∈ writeDirtied b f bufs) :
    d ∈ bufs ∨ ∃ e ∈ bufs, e.blockno = b ∧ d = { e with page := f e.page } := by
  induction bufs with
  | nil => simp [writeDirtied] at h
  | cons e bufs ih =>
    simp only [writeDirtied] at h
    split at h
    · rename_i hb
      rcases List.mem_cons.mp h with rfl | h
      · exact .inr ⟨e, List.mem_cons_self, hb, rfl⟩
      · exact .inl (List.mem_cons_of_mem _ h)
    · rcases List.mem_cons.mp h with rfl | h
      · exact .inl List.mem_cons_self
      · rcases ih h with h | ⟨e', he', hb, rfl⟩
        · exact .inl (List.mem_cons_of_mem _ h)
        · exact .inr ⟨e', List.mem_cons_of_mem _ he', hb, rfl⟩

theorem mem_of_writeDirtied {b : ℕ} {f : Page → Page} {bufs : List DirtiedPage} {d : DirtiedPage}
    (h : d ∈ bufs) : ∃ e ∈ writeDirtied b f bufs, e.blockno = d.blockno ∧
      e.walState = d.walState := by
  induction bufs with
  | nil => simp at h
  | cons e bufs ih =>
    simp only [writeDirtied]
    split
    · rcases List.mem_cons.mp h with rfl | h
      · exact ⟨_, List.mem_cons_self, rfl, rfl⟩
      · exact ⟨d, List.mem_cons_of_mem _ h, rfl, rfl⟩
    · rcases List.mem_cons.mp h with rfl | h
      · exact ⟨_, List.mem_cons_self, rfl, rfl⟩
      · obtain ⟨e', he', h1, h2⟩ := ih h
        exact ⟨e', List.mem_cons_of_mem _ he', h1, h2⟩

end Dirtied

/-- The registered copies over the relation amount to `grown`, up to node
    bytes: blocks that differ from the relation are in the own record. -/
structure Working (grown : List Page) (st : InsertState) : Prop where
  length_eq : st.pages.length = grown.length
  nodup : (st.ed.bufs.map (·.blockno)).Nodup
  in_range : ∀ d ∈ st.ed.bufs, 1 ≤ d.blockno ∧ d.blockno ≤ grown.length
  shape : ∀ d ∈ st.ed.bufs, SameShape (getPage grown d.blockno) d.page
  clean : ∀ b, (∀ d ∈ st.ed.bufs, d.walState = none → d.blockno ≠ b) →
    getPage st.pages b = getPage grown b
  states : ∀ d ∈ st.ed.bufs, ∀ i, d.walState = some i → i < st.ed.stateSize
  opened : st.ed.stateSize = 0 → st.ed.pagesInTheLastState = MAX_GENERIC_XLOG_PAGES

theorem openWalState_done {ed ed' : ExtraDirtiedBufs} (h : openWalState ed = .done ed')
    (ho : ed.stateSize = 0 → ed.pagesInTheLastState = MAX_GENERIC_XLOG_PAGES) :
    ed'.bufs = ed.bufs ∧ ed.stateSize ≤ ed'.stateSize ∧ 0 < ed'.stateSize := by
  unfold openWalState at h
  split at h
  · split at h
    · cases h
      exact ⟨rfl, Nat.le_succ _, Nat.succ_pos _⟩
    · cases h
  · rename_i hfull
    cases h
    exact ⟨rfl, le_refl _, Nat.pos_of_ne_zero fun h0 => hfull (ho h0)⟩

theorem extraDirtiedAdd_done {ed ed' : ExtraDirtiedBufs} (h : extraDirtiedAdd ed d = .done ed') :
    ed' = { ed with bufs := ed.bufs ++ [d] } := by
  unfold extraDirtiedAdd at h
  split at h
  · cases h
    rfl
  · cases h

theorem registerMut_done {grown : List Page} {b : ℕ} {ed : ExtraDirtiedBufs} (hw : Working grown st)
    (h : registerMut b st = .done ed) :
    Working grown { st with ed := ed } ∧ (∀ d ∈ ed.bufs, d ∈ st.ed.bufs ∨
      d.blockno = b ∧ d.page = getPage st.pages b ∧ d.walState ≠ none) := by
  unfold registerMut at h
  split at h
  · cases h
    exact ⟨hw, fun d hd => .inl hd⟩
  · rename_i hget
    obtain ⟨ed1, hopen, h⟩ := Outcome.bind_eq_done.mp h
    obtain ⟨hbufs, hle, hpos⟩ := openWalState_done hopen hw.opened
    split at h
    · cases h
    · rename_i hrange
      have hed := extraDirtiedAdd_done h
      simp only [hbufs] at hed
      have hfresh := extraDirtiedGet_none hget
      have hlen := hw.length_eq
      subst hed
      refine ⟨⟨hlen, ?_, ?_, ?_, ?_, ?_, ?_⟩, ?_⟩
      · rw [List.map_append, List.nodup_append]
        refine ⟨hw.nodup, by simp, ?_⟩
        intro c hc c' hc'
        obtain ⟨d, hd, rfl⟩ := List.mem_map.mp hc
        simp only [List.map_cons, List.map_nil, List.mem_singleton] at hc'
        rw [hc']
        exact hfresh d hd
      · intro d hd
        rcases List.mem_append.mp hd with hd | hd
        · exact hw.in_range d hd
        · rw [List.mem_singleton.mp hd]
          change 1 ≤ b ∧ b ≤ grown.length
          omega
      · intro d hd
        rcases List.mem_append.mp hd with hd | hd
        · exact hw.shape d hd
        · rw [List.mem_singleton.mp hd]
          change SameShape (getPage grown b) (getPage st.pages b)
          rw [hw.clean b fun d hd _ => hfresh d hd]
          exact .refl _
      · intro c hc
        exact hw.clean c fun d hd => hc d (List.mem_append_left _ hd)
      · intro d hd i hi
        rcases List.mem_append.mp hd with hd | hd
        · exact lt_of_lt_of_le (hw.states d hd i hi) hle
        · rw [List.mem_singleton.mp hd] at hi
          simp only [Option.some.injEq] at hi
          change i < ed1.stateSize
          omega
      · intro h0
        change ed1.stateSize = 0 at h0
        omega
      · intro d hd
        rcases List.mem_append.mp hd with hd | hd
        · exact .inl hd
        · rw [List.mem_singleton.mp hd]
          exact .inr ⟨rfl, rfl, by simp⟩

theorem setItemNode_sameShape (f : List UInt8 → List UInt8) (posid : ℕ) (p : Page) :
    SameShape p (setItemNode f posid p) := by
  refine ⟨rfl, rfl, ?_⟩
  apply List.ext_getElem?
  intro i
  simp only [seqids, setItemNode, List.getElem?_map, List.getElem?_modify]
  by_cases hi : posid - 1 = i
  · simp [hi, Function.comp_def]
  · simp [hi]

theorem Working.write {grown : List Page} {st : InsertState} (hw : Working grown st) (b : ℕ)
    {f : Page → Page} (hf : ∀ p, SameShape p (f p)) :
    Working grown { st with ed := st.ed.write b f } where
  length_eq := hw.length_eq
  nodup := by
    change ((writeDirtied b f st.ed.bufs).map _).Nodup
    rw [writeDirtied_blocknos]
    exact hw.nodup
  in_range := by
    intro d hd
    rcases mem_writeDirtied hd with hd | ⟨e, he, -, rfl⟩
    · exact hw.in_range d hd
    · exact hw.in_range e he
  shape := by
    intro d hd
    rcases mem_writeDirtied hd with hd | ⟨e, he, -, rfl⟩
    · exact hw.shape d hd
    · exact (hw.shape e he).trans (hf _)
  clean := by
    intro c hc
    refine hw.clean c fun d hd hs => ?_
    obtain ⟨e, he, hb, hst⟩ := @mem_of_writeDirtied b f _ d hd
    rw [← hb]
    exact hc e he (hst.trans hs)
  states := by
    intro d hd i hi
    rcases mem_writeDirtied hd with hd | ⟨e, he, -, rfl⟩
    · exact hw.states d hd i hi
    · exact hw.states e he i hi
  opened := hw.opened

theorem writeNodeMut_done {grown : List Page} {st' : InsertState} {tid : ItemPointerData}
    {f : List UInt8 → List UInt8} (hw : Working grown st) (h : writeNodeMut tid f st = .done st') :
    Working grown st' ∧ st'.hdr = st.hdr ∧ st'.pages = st.pages := by
  obtain ⟨ed, hed, h⟩ := Outcome.bind_eq_done.mp h
  split at h
  · cases h
  · cases h
    have hw' := (registerMut_done hw hed).1
    exact ⟨hw'.write tid.block fun p => setItemNode_sameShape f tid.posid p, rfl, rfl⟩

theorem editNodes_done {grown : List Page} {edits : List (ItemPointerData × NodeEdit)}
    {st' : InsertState} (hw : Working grown st) (h : editNodes md edits st = .done st') :
    Working grown st' ∧ st'.hdr = st.hdr ∧ st'.pages = st.pages := by
  refine foldSteps_invariant (fun _ s => Working grown s ∧ s.hdr = st.hdr ∧
    s.pages = st.pages) [] ?_
    ⟨hw, rfl, rfl⟩ h
  rintro - s e t - ⟨hs, hh, hp⟩ ht
  obtain ⟨ht', hh', hp'⟩ := writeNodeMut_done hs ht
  exact ⟨ht', hh'.trans hh, hp'.trans hp⟩

structure IndexChain (r : Rel) : Prop where
  chained : Chained r.header.numVectors r.header.lastDataBlock (dataPages 1 r.pages)
  length_lt : r.pages.length < InvalidBlockNumber

theorem addVector_fresh (t : HnswIndexTuple) :
    hnswIndexPageAddVector (pageInit sizeofHnswIndexPageSpecialBlock) t =
      if FitsFreshPage t.node.length then .done (singlePage t, 1)
      else .fault (.elog
        "LanternDB invariant violation: unexpectedly could not add item to the last existing page")
          := by
  have h : pageAddItem (pageInit sizeofHnswIndexPageSpecialBlock) t = _ :=
    pageAddItem_fresh ⟨0, 0, 0⟩ t
  rw [hnswIndexPageAddVector, h]
  by_cases hf : FitsFreshPage t.node.length
  · simp only [if_pos hf]
    rfl
  · simp only [if_neg hf]

theorem addVector_last {p q : Page} {off : ℕ} (hp : p.items ≠ [])
    (hid : p.special.lastId + 1 = t.seqid) (hnext : p.special.nextblockno = InvalidBlockNumber)
    (h : pageAddItem p t = some (q, off)) :
    hnswIndexPageAddVector p t = .done (extendedPage p t, off) := by
  have hq := (pageAddItem_eq_some h).1
  have hlen : ¬ pageGetMaxOffsetNumber q = 1 := by
    have := List.length_pos_iff.mpr hp
    simp only [hq, pageGetMaxOffsetNumber, List.length_append, List.length_singleton]
    omega
  unfold hnswIndexPageAddVector
  rw [h]
  simp only [if_neg hlen]
  subst hq
  simp only [hid, hnext, ne_eq, not_true_eq_false, if_false, extendedPage]

theorem extraDirtiedAdd_short {ed : ExtraDirtiedBufs} (d : DirtiedPage) (h : ed.bufs.length ≤ 1) :
    extraDirtiedAdd ed d = .done { ed with bufs := ed.bufs ++ [d] } := by
  have hmax : LDB_HNSW_INSERT_MAX_EXTRA_DIRTIED_BUFS = 100 := rfl
  rw [extraDirtiedAdd, if_pos (by omega)]

theorem Working.ofOwn {grown pages : List Page} {hdr : HnswIndexHeaderPage}
    (hlen : pages.length = grown.length) (hnodup : (bufs.map (·.blockno)).Nodup)
    (hrange : ∀ d ∈ bufs, 1 ≤ d.blockno ∧ d.blockno ≤ grown.length)
    (hown : ∀ d ∈ bufs, d.page = getPage grown d.blockno ∧ d.walState = none)
    (hclean : ∀ b, (∀ d ∈ bufs, d.blockno ≠ b) → getPage pages b = getPage grown b) :
    Working grown ⟨pages, hdr, ⟨bufs, 0, MAX_GENERIC_XLOG_PAGES⟩⟩ where
  length_eq := hlen
  nodup := hnodup
  in_range := hrange
  shape := fun d hd => by rw [(hown d hd).1]; exact .refl _
  clean := fun b hb => hclean b fun d hd => hb d hd (hown d hd).2
  states := fun d hd i hi => by rw [(hown d hd).2] at hi; cases hi
  opened := fun _ => rfl

structure TuplePlaced (r : Rel) (t : HnswIndexTuple) (grown : List Page) (st : InsertState)
    (slot : ItemPointerData) : Prop where
  grows : Grown r.pages r.header.lastDataBlock t grown slot.block slot.posid
  working : Working grown st
  hdr_eq : st.hdr = { r.header with lastDataBlock := slot.block }
  block_lt : slot.block < InvalidBlockNumber
  own : ∀ d ∈ st.ed.bufs, d.page = getPage grown d.blockno ∧ d.walState = none
  registered : ∃ d ∈ st.ed.bufs, d.blockno = slot.block
  same_pages : ∀ b, getPage st.pages b = getPage r.pages b

def PlaceOutcome (r : Rel) (t : HnswIndexTuple) : Prop :=
  (∃ text, placeTuple t ⟨r.pages, r.header, extraDirtiedNew⟩ = .fault (.elog text)) ∨
  ∃ grown st slot, placeTuple t ⟨r.pages, r.header, extraDirtiedNew⟩ = .done (st, slot) ∧
    TuplePlaced r t grown st slot

theorem writeDirtied_append {b : ℕ} {f : Page → Page} (h : ∀ e ∈ bufs, e.blockno ≠ b)
    (hd : d.blockno = b) :
    writeDirtied b f (bufs ++ [d]) = bufs ++ [{ d with page := f d.page }] := by
  induction bufs with
  | nil => simp [writeDirtied, hd]
  | cons e bufs ih =>
    rw [List.cons_append, writeDirtied, if_neg (h e List.mem_cons_self),
      ih fun e' he' => h e' (List.mem_cons_of_mem _ he'), List.cons_append]

theorem addOnNewBlock_eq {b : ℕ} (hlen : st.ed.bufs.length ≤ 1)
    (hb : ∀ d ∈ st.ed.bufs, d.blockno ≠ b) :
    addOnNewBlock t b st =
      if FitsFreshPage t.node.length then
        .done (⟨st.pages, { st.hdr with lastDataBlock := b },
          { st.ed with bufs := st.ed.bufs ++ [⟨b, singlePage t, none⟩] }⟩, ⟨b, 1⟩)
      else .fault (.elog
        "LanternDB invariant violation: unexpectedly could not add item to the last existing page")
          := by
  rw [addOnNewBlock, extraDirtiedAdd_short _ hlen, Outcome.bind_done, addVector_fresh]
  split
  · simp only [Outcome.bind_done, ExtraDirtiedBufs.write]
    rw [writeDirtied_append hb rfl]
  · rfl

theorem placeTuple_first (hl : r.header.lastDataBlock = InvalidBlockNumber) : PlaceOutcome r t := by
  rw [PlaceOutcome, placeTuple, if_pos hl, readBufferNew]
  by_cases hlen : r.pages.length + 1 < InvalidBlockNumber
  · simp only [if_pos hlen, Outcome.bind_done]
    rw [addOnNewBlock_eq (by simp [extraDirtiedNew]) (by simp [extraDirtiedNew])]
    by_cases hf : FitsFreshPage t.node.length
    · rw [if_pos hf]
      have hown : ∀ d ∈ [(⟨r.pages.length + 1, singlePage t, none⟩ : DirtiedPage)],
          d.page = getPage (setPage (r.pages ++ [zeroPage]) (r.pages.length + 1) (singlePage t))
            d.blockno ∧ d.walState = none := by
        simp only [List.mem_singleton, forall_eq, and_true]
        rw [getPage_setPage_self (by simp) (by simp)]
      refine .inr ⟨_, _, _, rfl, .first hl hlen, ?_, rfl, hlen, hown, by simp [extraDirtiedNew],
        getPage_append_zero r.pages⟩
      refine .ofOwn (by simp) (by simp [extraDirtiedNew]) (by simp [extraDirtiedNew]) hown
        fun b hb => ?_
      have hne := hb ⟨r.pages.length + 1, singlePage t, none⟩ (by simp)
      rw [getPage_setPage_ne (Ne.symm hne)]
    · rw [if_neg hf]
      exact .inl ⟨_, rfl⟩
  · rw [if_neg hlen]
    exact .inl ⟨_, rfl⟩

theorem registerLastPage_new (r : Rel) :
    registerLastPage ⟨r.pages, r.header, extraDirtiedNew⟩ =
      .done ⟨[⟨r.header.lastDataBlock, getPage r.pages r.header.lastDataBlock, none⟩], 0,
        MAX_GENERIC_XLOG_PAGES⟩ := by
  unfold registerLastPage
  change extraDirtiedAdd extraDirtiedNew _ = _
  rw [extraDirtiedAdd_short _ (by simp [extraDirtiedNew])]
  rfl

theorem placeTuple_last (t : HnswIndexTuple) (hl : r.header.lastDataBlock ≠ InvalidBlockNumber) :
    placeTuple t ⟨r.pages, r.header, extraDirtiedNew⟩ =
      let last := r.header.lastDataBlock
      let ed : ExtraDirtiedBufs := ⟨[⟨last, getPage r.pages last, none⟩], 0, MAX_GENERIC_XLOG_PAGES⟩
      if sizeofItemIdData + sizeofHnswIndexTuple + t.size < pageGetFreeSpace (getPage r.pages last)
        then
        (hnswIndexPageAddVector (getPage r.pages last) t).bind fun (p, off) =>
          .done (⟨r.pages, r.header, ed.write last fun _ => p⟩, ⟨last, off⟩)
      else
        (readBufferNew r.pages).bind fun (blockno, pages) =>
          addOnNewBlock t blockno
            ⟨pages, r.header, ed.write last fun p => relinkedPage p blockno⟩ := by
  have hget : extraDirtiedGet
      ⟨[⟨r.header.lastDataBlock, getPage r.pages r.header.lastDataBlock, none⟩], 0,
      MAX_GENERIC_XLOG_PAGES⟩ r.header.lastDataBlock =
        some (getPage r.pages r.header.lastDataBlock) := by simp [extraDirtiedGet]
  rw [placeTuple, if_neg hl, registerLastPage_new, Outcome.bind_done]
  simp only [hget, Option.getD_some]

theorem extended_placed {q : Page} {off : ℕ} (hl : r.header.lastDataBlock ≠ InvalidBlockNumber)
    (h1 : 1 ≤ r.header.lastDataBlock) (h2 : r.header.lastDataBlock ≤ r.pages.length)
    (hinv : r.pages.length < InvalidBlockNumber)
    (ha : pageAddItem (getPage r.pages r.header.lastDataBlock) t = some (q, off)) :
    TuplePlaced r t (setPage r.pages r.header.lastDataBlock
        (extendedPage (getPage r.pages r.header.lastDataBlock) t))
      ⟨r.pages, r.header, ⟨[⟨r.header.lastDataBlock,
        extendedPage (getPage r.pages r.header.lastDataBlock) t, none⟩], 0, MAX_GENERIC_XLOG_PAGES⟩⟩
      ⟨r.header.lastDataBlock, off⟩ := by
  have hown : ∀ d ∈ [(⟨r.header.lastDataBlock,
        extendedPage (getPage r.pages r.header.lastDataBlock) t, none⟩ : DirtiedPage)],
      d.page = getPage (setPage r.pages r.header.lastDataBlock
        (extendedPage (getPage r.pages r.header.lastDataBlock) t)) d.blockno ∧
        d.walState = none := by
    simp only [List.mem_singleton, forall_eq, and_true]
    rw [getPage_setPage_self h1 h2]
  refine ⟨.last hl ha, ?_, rfl, lt_of_le_of_lt h2 hinv, hown, ⟨_, List.mem_singleton.mpr rfl, rfl⟩,
    fun _ => rfl⟩
  refine .ofOwn (by simp) (by simp) (by simp; omega) hown fun b hb => ?_
  rw [getPage_setPage_ne (hb _ (List.mem_singleton.mpr rfl)).symm]

theorem relinked_placed (hl : r.header.lastDataBlock ≠ InvalidBlockNumber)
    (h1 : 1 ≤ r.header.lastDataBlock) (h2 : r.header.lastDataBlock ≤ r.pages.length)
    (hlen : r.pages.length + 1 < InvalidBlockNumber) :
    TuplePlaced r t (setPage (setPage r.pages r.header.lastDataBlock
        (relinkedPage (getPage r.pages r.header.lastDataBlock) (r.pages.length + 1)) ++ [zeroPage])
        (r.pages.length + 1) (singlePage t))
      ⟨r.pages ++ [zeroPage], { r.header with lastDataBlock := r.pages.length + 1 },
        ⟨[⟨r.header.lastDataBlock,
            relinkedPage (getPage r.pages r.header.lastDataBlock) (r.pages.length + 1), none⟩,
          ⟨r.pages.length + 1, singlePage t, none⟩], 0, MAX_GENERIC_XLOG_PAGES⟩⟩
      ⟨r.pages.length + 1, 1⟩ := by
  have hne : r.header.lastDataBlock ≠ r.pages.length + 1 := by omega
  have hown : ∀ d ∈ [(⟨r.header.lastDataBlock, relinkedPage (getPage r.pages r.header.lastDataBlock)
        (r.pages.length + 1), none⟩ : DirtiedPage), ⟨r.pages.length + 1, singlePage t, none⟩],
      d.page = getPage (setPage (setPage r.pages r.header.lastDataBlock
        (relinkedPage (getPage r.pages r.header.lastDataBlock) (r.pages.length + 1)) ++ [zeroPage])
        (r.pages.length + 1) (singlePage t)) d.blockno ∧ d.walState = none := by
    simp only [List.mem_cons, List.not_mem_nil, or_false, forall_eq_or_imp, forall_eq, and_true]
    rw [getPage_setPage_self (by omega) (by simp), getPage_setPage_ne hne,
      getPage_append_left (by simpa using h2), getPage_setPage_self h1 h2]
    exact ⟨rfl, rfl⟩
  refine ⟨.new hl hlen, ?_, rfl, hlen, hown,
    ⟨_, List.mem_cons_of_mem _ (List.mem_singleton.mpr rfl), rfl⟩, getPage_append_zero r.pages⟩
  refine .ofOwn (by simp) (by simpa using hne) (by simp; omega) hown fun b hb => ?_
  have hb1 := hb _ List.mem_cons_self
  have hb2 := hb _ (List.mem_cons_of_mem _ (List.mem_singleton.mpr rfl))
  rw [getPage_setPage_ne (Ne.symm hb2), getPage_append_zero, getPage_append_zero,
    getPage_setPage_ne (Ne.symm hb1)]

theorem placeTuple_next (hr : IndexChain r) (ht : t.seqid = r.header.numVectors)
    (hl : r.header.lastDataBlock ≠ InvalidBlockNumber) :
    PlaceOutcome r t := by
  obtain ⟨-, -, h1, h2, hi⟩ := hr.chained.lastPage hl
  obtain ⟨hnext, hid⟩ := hr.chained.lastSpecial hl
  rw [PlaceOutcome, placeTuple_last t hl]
  dsimp only
  split
  · cases ha : pageAddItem (getPage r.pages r.header.lastDataBlock) t with
    | none => exact .inl ⟨_, by rw [hnswIndexPageAddVector, ha, Outcome.bind_fault]⟩
    | some q =>
      rw [addVector_last hi (hid.trans ht.symm) hnext ha]
      refine .inr ⟨_, _, _, ?_, extended_placed hl h1 h2 hr.length_lt ha⟩
      simp [ExtraDirtiedBufs.write, writeDirtied]
  · rw [readBufferNew]
    by_cases hlen : r.pages.length + 1 < InvalidBlockNumber
    · simp only [if_pos hlen, Outcome.bind_done, ExtraDirtiedBufs.write, writeDirtied, if_true]
      rw [addOnNewBlock_eq (by simp) (by simp; omega)]
      by_cases hf : FitsFreshPage t.node.length
      · rw [if_pos hf]
        exact .inr ⟨_, _, _, rfl, relinked_placed hl h1 h2 hlen⟩
      · rw [if_neg hf]
        exact .inl ⟨_, rfl⟩
    · rw [if_neg hlen]
      exact .inl ⟨_, rfl⟩

theorem placeTuple_outcome (hr : IndexChain r) (ht : t.seqid = r.header.numVectors) :
    PlaceOutcome r t := by
  by_cases hl : r.header.lastDataBlock = InvalidBlockNumber
  · exact placeTuple_first hl
  · exact placeTuple_next hr ht hl

def newTuple (md : Metadata) (r : Rel) (level : ℕ) : HnswIndexTuple :=
  let size := usearchNodeBytes md (r.header.vectorDim * 4) level
  ⟨r.header.numVectors, size, List.replicate size 0⟩

def counted (st : InsertState) : InsertState :=
  { st with hdr := { st.hdr with numVectors := st.hdr.numVectors + 1 } }

theorem Working.counted {grown : List Page} (h : Working grown st) :
    Working grown (counted st) :=
  ⟨h.length_eq, h.nodup, h.in_range, h.shape, h.clean, h.states, h.opened⟩

/-- An insert that gets to its records: the tuple is placed, its node is
    initialised, usearch edits nodes and the header. -/
structure InsertSteps (md : Metadata) (r : Rel) (add : UsearchAdd) (grown : List Page)
    (slot : ItemPointerData) (st st0 st1 st2 : InsertState) : Prop where
  prepared : prepareIndexTuple md r.header.numVectors add.level
    ⟨r.pages, r.header, extraDirtiedNew⟩ =
    .done (counted st0, slot)
  placed : TuplePlaced r (newTuple md r add.level) grown st0 slot
  initialised : writeNodeMut slot
    (fun _ => usearchInitNode (newTuple md r add.level).size add.label add.level) (counted st0) =
      .done st1
  edited : editNodes md (add.edits slot) st1 = .done st2
  final : st = { st2 with hdr := { st2.hdr with usearchHeader := add.header slot } }

theorem insertWork_steps {add : UsearchAdd} (hr : IndexChain r)
    (h : insertWork md r add = .done st) :
    ∃ grown slot st0 st1 st2, InsertSteps md r add grown slot st st0 st1 st2 := by
  unfold insertWork at h
  split at h
  · cases h
  obtain ⟨⟨st0', slot⟩, hprep, h⟩ := Outcome.bind_eq_done.mp h
  obtain ⟨⟨st0, slot0⟩, hplace, hst0⟩ := Outcome.map_eq_done.mp hprep
  cases hst0
  rcases placeTuple_outcome (t := newTuple md r add.level) hr rfl with
    ⟨text, he⟩ | ⟨grown, st', slot', he, hp⟩
  · have := hplace.symm.trans he
    cases this
  · have := hplace.symm.trans he
    cases this
    obtain ⟨st1, h1, h⟩ := Outcome.bind_eq_done.mp h
    obtain ⟨st2, h2, h⟩ := Outcome.bind_eq_done.mp h
    split at h
    · cases h
    · cases h
      exact ⟨grown, slot, st0, st1, st2, hprep, hp, h1, h2, rfl⟩

structure InsertDone (md : Metadata) (r : Rel) (add : UsearchAdd) (grown : List Page)
    (slot : ItemPointerData) (st : InsertState) : Prop where
  grows : Grown r.pages r.header.lastDataBlock (newTuple md r add.level) grown slot.block slot.posid
  working : Working grown st
  hdr_eq : st.hdr = { r.header with
    numVectors := r.header.numVectors + 1
    lastDataBlock := slot.block
    usearchHeader := add.header slot }
  same_pages : ∀ b, getPage st.pages b = getPage r.pages b

theorem InsertSteps.done {add : UsearchAdd} {grown : List Page} {st0 st1 st2 : InsertState}
    (h : InsertSteps md r add grown slot st st0 st1 st2) : InsertDone md r add grown slot st := by
  obtain ⟨hw1, hh1, hp1⟩ := writeNodeMut_done h.placed.working.counted h.initialised
  obtain ⟨hw2, hh2, hp2⟩ := editNodes_done hw1 h.edited
  rw [h.final]
  refine ⟨h.placed.grows, ⟨hw2.length_eq, hw2.nodup, hw2.in_range, hw2.shape, hw2.clean, hw2.states,
    hw2.opened⟩, ?_, fun b => ?_⟩
  · simp only [hh2, hh1, counted, h.placed.hdr_eq]
  · change getPage st2.pages b = _
    rw [hp2, hp1]
    exact h.placed.same_pages b

theorem applyRecord_foldl (records : List WalRecord) (r : Rel) :
    (records.foldl applyRecord r).pages = (records.flatMap (·.pages)).foldl writeBlock r.pages := by
  induction records generalizing r with
  | nil => rfl
  | cons rec records ih => rw [List.foldl_cons, ih, List.flatMap_cons, List.foldl_append]; rfl

theorem applyRecord_header {records : List WalRecord}
    (h : ∀ rec ∈ records, rec.header = none) (r : Rel) :
    (records.foldl applyRecord r).header = r.header := by
  induction records generalizing r with
  | nil => rfl
  | cons rec records ih =>
    rw [List.foldl_cons, ih fun rec' h' => h rec' (List.mem_cons_of_mem _ h'), applyRecord,
      h rec List.mem_cons_self]
    rfl

theorem mem_walRecords_pages {rec : WalRecord} (h : rec ∈ walRecords st) (hw : w ∈ rec.pages) :
    ∃ d ∈ st.ed.bufs, (d.blockno, d.page) = w := by
  have state : ∀ s, w ∈ statePages st.ed s → ∃ d ∈ st.ed.bufs, (d.blockno, d.page) = w := by
    intro s hs
    obtain ⟨d, hd, rfl⟩ := List.mem_map.mp hs
    exact ⟨d, List.mem_of_mem_filter hd, rfl⟩
  rcases List.mem_cons.mp h with rfl | h
  · exact state none hw
  · obtain ⟨i, -, rfl⟩ := List.mem_map.mp h
    exact state (some i) hw

theorem applyRecords_take {grown : List Page} (hw : Working grown st) (k : ℕ) (r : Rel) :
    let r' := ((walRecords st).take (k + 1)).foldl applyRecord r
    r'.header = st.hdr ∧
    (∀ b, getPage r'.pages b = getPage r.pages b ∨ ∃ d ∈ st.ed.bufs, d.blockno = b ∧
      getPage r'.pages b = d.page) ∧
    ∀ d ∈ st.ed.bufs, d.walState = none → getPage r'.pages d.blockno = d.page := by
  intro r'
  have hpages :
      r'.pages = (((walRecords st).take (k + 1)).flatMap (·.pages)).foldl writeBlock r.pages :=
    applyRecord_foldl _ r
  let g : ℕ → Page := fun b => (extraDirtiedGet st.ed b).getD zeroPage
  have hg : ∀ d ∈ st.ed.bufs, g d.blockno = d.page := fun d hd => by
    simp only [g, extraDirtiedGet_of_mem hw.nodup hd, Option.getD_some]
  have hwrites : ∀ w ∈ ((walRecords st).take (k + 1)).flatMap (·.pages), 1 ≤ w.1 ∧ w.2 = g w.1 := by
    intro w hmem
    obtain ⟨rec, hrec, hwrec⟩ := List.mem_flatMap.mp hmem
    obtain ⟨d, hd, rfl⟩ := mem_walRecords_pages (List.mem_of_mem_take hrec) hwrec
    exact ⟨(hw.in_range d hd).1, (hg d hd).symm⟩
  have hget := getPage_writeBlocks g hwrites r.pages
  refine ⟨?_, fun b => ?_, fun d hd hs => ?_⟩
  · change (((walRecords st).take (k + 1)).foldl applyRecord r).header = st.hdr
    rw [walRecords, List.take_succ_cons, List.foldl_cons, applyRecord_header]
    · rfl
    · intro rec hrec
      obtain ⟨i, -, rfl⟩ := List.mem_map.mp (List.mem_of_mem_take hrec)
      rfl
  · rw [hpages, hget b]
    split
    · rename_i hb
      obtain ⟨w, hmem, rfl⟩ := List.mem_map.mp hb
      obtain ⟨rec, hrec, hwrec⟩ := List.mem_flatMap.mp hmem
      obtain ⟨d, hd, rfl⟩ := mem_walRecords_pages (List.mem_of_mem_take hrec) hwrec
      exact .inr ⟨d, hd, rfl, hg d hd⟩
    · exact .inl rfl
  · rw [hpages, hget d.blockno, if_pos]
    · exact hg d hd
    · have hfirst : (⟨some st.hdr, statePages st.ed none⟩ : WalRecord) ∈
          (walRecords st).take (k + 1) := by
        rw [walRecords, List.take_succ_cons]
        exact List.mem_cons_self
      have hin : (d.blockno, d.page) ∈ statePages st.ed none :=
        List.mem_map.mpr ⟨d, List.mem_filter.mpr ⟨hd, by simpa using hs⟩, rfl⟩
      exact List.mem_map.mpr ⟨(d.blockno, d.page), List.mem_flatMap.mpr ⟨_, hfirst, hin⟩, rfl⟩

theorem InsertDone.chained_take {add : UsearchAdd} {grown : List Page} (hr : IndexChain r)
    (hd : InsertDone md r add grown slot st) (k : ℕ) (r0 : Rel)
    (hr0 : ∀ b, getPage r0.pages b = getPage st.pages b) :
    let r' := ((walRecords st).take (k + 1)).foldl applyRecord r0
    Chained r'.header.numVectors r'.header.lastDataBlock (dataPages 1 r'.pages) ∧
      ∀ b, SameShape (getPage grown b) (getPage r'.pages b) := by
  intro r'
  obtain ⟨hhdr, hpage, hown⟩ := applyRecords_take hd.working k r0
  have hshape : ∀ b, SameShape (getPage grown b) (getPage r'.pages b) := by
    intro b
    by_cases hb : ∃ d ∈ st.ed.bufs, d.walState = none ∧ d.blockno = b
    · obtain ⟨d, hmem, hs, rfl⟩ := hb
      rw [hown d hmem hs]
      exact hd.working.shape d hmem
    · rcases hpage b with he | ⟨d, hmem, rfl, he⟩
      · rw [he, hr0, hd.working.clean b fun d hmem hs hbd => hb ⟨d, hmem, hs, hbd⟩]
        exact .refl _
      · rw [he]
        exact hd.working.shape d hmem
  refine ⟨?_, hshape⟩
  have hgrown := hd.grows.chained hr.chained rfl
  rw [hhdr, hd.hdr_eq]
  exact hgrown.of_getPage hshape

theorem InsertDone.records_in_range {add : UsearchAdd} {grown : List Page}
    (hd : InsertDone md r add grown slot st) (hw : w ∈ (walRecords st).flatMap (·.pages)) :
    1 ≤ w.1 ∧ w.1 ≤ grown.length := by
  obtain ⟨rec, hrec, hwrec⟩ := List.mem_flatMap.mp hw
  obtain ⟨d, hmem, rfl⟩ := mem_walRecords_pages hrec hwrec
  exact hd.working.in_range d hmem

theorem InsertDone.finish_length {add : UsearchAdd} {grown : List Page}
    (hd : InsertDone md r add grown slot st) :
    (finishInsert r st).pages.length = grown.length := by
  rw [finishInsert, applyRecord_foldl, writeBlocks_length]
  · exact hd.working.length_eq
  · intro w hw
    rw [hd.working.length_eq]
    exact (hd.records_in_range hw).2

theorem take_walRecords (st : InsertState) :
    (walRecords st).take (st.ed.stateSize + 1) = walRecords st :=
  List.take_of_length_le (by simp [walRecords])

theorem finishInsert_chain {add : UsearchAdd} (hr : IndexChain r)
    (h : insertWork md r add = .done st) : IndexChain (finishInsert r st) := by
  obtain ⟨grown, slot, st0, st1, st2, hsteps⟩ := insertWork_steps hr h
  have hd := hsteps.done
  have hch := hd.chained_take hr st.ed.stateSize ⟨r.header, st.pages⟩ fun _ => rfl
  rw [take_walRecords] at hch
  refine ⟨hch.1, ?_⟩
  rw [hd.finish_length]
  exact (hd.grows.length_lt hr.length_lt).2

end Lantern.InsertTuple
