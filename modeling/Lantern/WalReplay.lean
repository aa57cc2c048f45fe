import Lantern.NodeEdits

set_option autoImplicit false

/-!
# Replaying the records of inserts

After a crash a logged index is its last durable image with some number of the
records written since. An insert finishes its own record first, so that after
any number of records the graph has no dangling slot.
-/
namespace Lantern.WalReplay
open FuelLoop ByteStrings NodeLayout PageLayout IndexRelation PageChain StoreNodes StoreIndex
open StoreStreaming StoreRewrite InsertTuple IndexRuns NodeEdits

def HasTuple (pages : List Page) (tid : ItemPointerData) : Prop := ∃ t, tupleAt pages tid = some t

variable {slot tid : ItemPointerData} {records : List WalRecord} {t : HnswIndexTuple}
  {pages : List Page} {r r0 : Rel}

theorem hasTuple_iff :
    HasTuple pages tid ↔ tid.posid ≠ 0 ∧ tid.posid ≤ (getPage pages tid.block).items.length := by
  unfold HasTuple tupleAt
  split
  · rename_i h
    simp [h]
  · rename_i h
    constructor
    · rintro ⟨t, ht⟩
      have := (List.getElem?_eq_some_iff.mp ht).1
      exact ⟨h, by omega⟩
    · rintro ⟨-, hle⟩
      exact ⟨_, List.getElem?_eq_getElem (by omega)⟩

theorem HasTuple.of_sameShape {ps qs : List Page} (h : HasTuple ps tid)
    (hs : SameShape (getPage ps tid.block) (getPage qs tid.block)) : HasTuple qs tid := by
  rw [hasTuple_iff] at h ⊢
  rw [← hs.items_length]
  exact h

def entryPointer (uh : UsearchHeader) : ItemPointerData :=
  itemPointerOfBytes (leBytes 6 uh.entrySlot)

/-- A graph without dangling slots on a chain of pages. An index without
    vectors has no entry. -/
structure GraphOk (md : Metadata) (r : Rel) : Prop where
  chain : IndexChain r
  nodes : ∀ b, ∀ t ∈ (getPage r.pages b).items, NodeOk md (HasTuple r.pages) t.node
  entry : r.header.numVectors ≠ 0 → HasTuple r.pages (entryPointer r.header.usearchHeader)

theorem tupleAt_of_mem {b : ℕ} (h : t ∈ (getPage pages b).items) :
    ∃ posid, tupleAt pages ⟨b, posid⟩ = some t := by
  obtain ⟨i, hi⟩ := List.mem_iff_getElem?.mp h
  refine ⟨i + 1, ?_⟩
  rw [tupleAt, if_neg (by simp)]
  exact hi

theorem mem_of_tupleAt (h : tupleAt pages tid = some t) : t ∈ (getPage pages tid.block).items :=
  List.mem_of_getElem? (tupleAt_eq_some h).2.2.2

def currentPage (st : InsertState) (blockno : ℕ) : Page :=
  (extraDirtiedGet st.ed blockno).getD (getPage st.pages blockno)

def currentTuple (st : InsertState) (tid : ItemPointerData) : Option HnswIndexTuple :=
  if tid.posid = 0 then none else (currentPage st tid.block).items[tid.posid - 1]?

def CanRead (st : InsertState) (tid : ItemPointerData) : Prop := ∃ t, currentTuple st tid = some t

def EditOk (md : Metadata) (st : InsertState) (e : ItemPointerData × NodeEdit) : Prop :=
  ∃ t, currentTuple st e.1 = some t ∧ EditFits md (CanRead st) e.2 t.node

def EditsOk (md : Metadata) : List (ItemPointerData × NodeEdit) → InsertState → Prop
  | [], _ => True
  | e :: es, st => EditOk md st e ∧
      ∀ st', writeNodeMut e.1 (e.2.apply md) st = .done st' → EditsOk md es st'

/-- The assumption on usearch: it writes stored nodes and the new node only,
    and names stored nodes and the new node only. -/
structure Conforms (md : Metadata) (r : Rel) (add : UsearchAdd) : Prop where
  counts : HasCounts md
  edits : ∀ st slot st1,
    prepareIndexTuple md r.header.numVectors add.level ⟨r.pages, r.header, extraDirtiedNew⟩ =
      .done (st, slot) →
    writeNodeMut slot (fun _ =>
    usearchInitNode (newTuple md r add.level).size add.label add.level) st =
      .done st1 →
    EditsOk md (add.edits slot) st1 ∧ CanRead st1 (entryPointer (add.header slot))

section Insert
variable {md : Metadata} {grown : List Page} {st st' : InsertState}

theorem currentPage_sameShape (hw : Working grown st) (b : ℕ) :
    SameShape (getPage grown b) (currentPage st b) := by
  unfold currentPage
  cases hget : extraDirtiedGet st.ed b with
  | some p =>
    obtain ⟨d, hd, rfl, rfl⟩ := extraDirtiedGet_mem hget
    exact hw.shape d hd
  | none =>
    rw [Option.getD_none, hw.clean b fun d hd _ => extraDirtiedGet_none hget d hd]
    exact .refl _

theorem canRead_hasTuple (hw : Working grown st) (h : CanRead st tid) :
    HasTuple grown tid := by
  obtain ⟨t, ht⟩ := h
  unfold currentTuple at ht
  split at ht
  · cases ht
  · rename_i h0
    have := (List.getElem?_eq_some_iff.mp ht).1
    rw [hasTuple_iff, (currentPage_sameShape hw tid.block).items_length]
    exact ⟨h0, by omega⟩

structure NodesOk (md : Metadata) (grown : List Page) (st : InsertState) : Prop where
  copies : ∀ d ∈ st.ed.bufs, ∀ t ∈ d.page.items, NodeOk md (HasTuple grown) t.node
  disk : ∀ b, ∀ t ∈ (getPage st.pages b).items, NodeOk md (HasTuple grown) t.node

theorem registerMut_current {b : ℕ} {ed : ExtraDirtiedBufs} (hw : Working grown st)
    (h : registerMut b st = .done ed) : ∀ d ∈ ed.bufs, d.blockno = b →
      d.page = currentPage st b := by
  intro d hd hb
  cases hget : extraDirtiedGet st.ed b with
  | some p =>
    rw [registerMut, hget] at h
    cases h
    rw [← hb, currentPage, extraDirtiedGet_of_mem hw.nodup hd, Option.getD_some]
  | none =>
    rcases (registerMut_done hw h).2 d hd with hold | ⟨-, hp, -⟩
    · exact absurd hb (extraDirtiedGet_none hget d hold)
    · rw [hp, currentPage, hget, Option.getD_none]

theorem mem_setItemNode {f : List UInt8 → List UInt8} {posid : ℕ} {p : Page}
    (h : t ∈ (setItemNode f posid p).items) :
    t ∈ p.items ∨ ∃ u, p.items[posid - 1]? = some u ∧ t.node = f u.node := by
  obtain ⟨i, hi⟩ := List.mem_iff_getElem?.mp h
  simp only [setItemNode, List.getElem?_modify] at hi
  obtain ⟨u, hu, rfl⟩ := Option.map_eq_some_iff.mp hi
  split
  · rename_i he
    exact .inr ⟨u, by rw [he]; exact hu, rfl⟩
  · exact .inl (List.mem_of_getElem? hu)

theorem NodesOk.write {f : List UInt8 → List UInt8} (hw : Working grown st)
    (hn : NodesOk md grown st)
    (hf : ∀ t, currentTuple st tid = some t → NodeOk md (HasTuple grown) (f t.node))
    (h : writeNodeMut tid f st = .done st') : NodesOk md grown st' := by
  obtain ⟨ed, hed, h⟩ := Outcome.bind_eq_done.mp h
  split at h
  · cases h
  · rename_i hpos
    have hpos0 : tid.posid ≠ 0 := fun h0 => hpos (.inl h0)
    cases h
    have hcopies : ∀ d ∈ ed.bufs, ∀ t ∈ d.page.items, NodeOk md (HasTuple grown) t.node := by
      intro d hd t ht
      rcases (registerMut_done hw hed).2 d hd with hold | ⟨-, hp, -⟩
      · exact hn.copies d hold t ht
      · rw [hp] at ht
        exact hn.disk _ t ht
    refine ⟨?_, hn.disk⟩
    intro d hd t ht
    rcases mem_writeDirtied hd with hd | ⟨e, he, hb, rfl⟩
    · exact hcopies d hd t ht
    · rcases mem_setItemNode ht with ht | ⟨u, hu, htu⟩
      · exact hcopies e he t ht
      · rw [registerMut_current hw hed e he hb] at hu
        rw [htu]
        exact hf u (by rw [currentTuple, if_neg hpos0]; exact hu)

theorem NodesOk.current (hn : NodesOk md grown st) (h : currentTuple st tid = some t) :
    NodeOk md (HasTuple grown) t.node := by
  unfold currentTuple at h
  split at h
  · cases h
  have hmem := List.mem_of_getElem? h
  unfold currentPage at hmem
  cases hget : extraDirtiedGet st.ed tid.block with
  | some p =>
    obtain ⟨d, hd, -, rfl⟩ := extraDirtiedGet_mem hget
    exact hn.copies d hd t (by simpa [hget] using hmem)
  | none => exact hn.disk _ t (by simpa [hget] using hmem)

theorem NodesOk.edits {edits : List (ItemPointerData × NodeEdit)} (hmd : HasCounts md)
    (hbytes : ∀ tid, HasTuple grown tid → itemPointerOfBytes (itemPointerBytes tid) = tid)
    (hw : Working grown st) (hn : NodesOk md grown st) (hok : EditsOk md edits st)
    (h : editNodes md edits st = .done st') : NodesOk md grown st' := by
  induction edits generalizing st with
  | nil =>
    cases h
    exact hn
  | cons e es ih =>
    obtain ⟨st1, h1, h2⟩ := Outcome.bind_eq_done.mp h
    obtain ⟨⟨t, ht, hfits⟩, hrest⟩ := hok
    have hwrite : NodesOk md grown st1 := by
      refine hn.write hw (fun u hu => ?_) h1
      obtain rfl : u = t := Option.some.inj (hu.symm.trans ht)
      exact (hn.current hu).apply hmd hbytes (hfits.mono fun _ => canRead_hasTuple hw)
    exact ih (writeNodeMut_done hw h1).1 hwrite (hrest st1 h1) h2

theorem nodesOk_placed {level : ℕ} (hmd : HasCounts md) (hr : GraphOk md r)
    (hp : TuplePlaced r (newTuple md r level) grown st slot) :
    NodesOk md grown (counted st) := by
  have hold : ∀ tid, HasTuple r.pages tid → HasTuple grown tid :=
    fun tid ⟨t, ht⟩ => ⟨t, hp.grows.tupleAt_old ht⟩
  refine ⟨fun d hd t ht => ?_, fun b t ht => ?_⟩
  · rw [(hp.own d hd).1] at ht
    obtain ⟨posid, ht⟩ := tupleAt_of_mem ht
    rcases hp.grows.tupleAt_inv ht with hin | ⟨-, rfl⟩
    · exact (hr.nodes _ t (mem_of_tupleAt hin)).mono hold
    · exact nodeOk_replicate hmd _ _
  · rw [show getPage (counted st).pages b = getPage r.pages b from hp.same_pages b] at ht
    exact (hr.nodes b t ht).mono hold

theorem nodesOk_insert {add : UsearchAdd} {st0 st1 st2 : InsertState} (hr : GraphOk md r)
    (hadd : Conforms md r add) (h : InsertSteps md r add grown slot st st0 st1 st2) :
    NodesOk md grown st ∧ HasTuple grown (entryPointer (add.header slot)) := by
  have hgrown := h.placed.grows.chained hr.chain.chained rfl
  have hlen := (h.placed.grows.length_lt hr.chain.length_lt).2
  have hbytes : ∀ tid, HasTuple grown tid → itemPointerOfBytes (itemPointerBytes tid) = tid :=
    fun tid ⟨t, ht⟩ => hgrown.itemPointer_bytes hlen ht
  have hw0 := h.placed.working.counted
  have hw1 := (writeNodeMut_done hw0 h.initialised).1
  obtain ⟨hedits, hentry⟩ := hadd.edits _ _ _ h.prepared h.initialised
  have hn1 : NodesOk md grown st1 := by
    refine (nodesOk_placed hadd.counts hr h.placed).write hw0 (fun _ _ => ?_) h.initialised
    have := add.level_le
    exact nodeOk_usearchInitNode hadd.counts _ _ (by omega)
  have hn2 := hn1.edits hadd.counts hbytes hw1 hedits h.edited
  rw [h.final]
  exact ⟨⟨hn2.copies, hn2.disk⟩, canRead_hasTuple hw1 hentry⟩

end Insert

theorem writeBlocks_length_le {ws : List (ℕ × Page)} {n : ℕ} (hp : pages.length ≤ n)
    (h : ∀ w ∈ ws, w.1 ≤ n) : (ws.foldl writeBlock pages).length ≤ n := by
  induction ws generalizing pages with
  | nil => exact hp
  | cons w ws ih =>
    have hw := h w List.mem_cons_self
    refine ih ?_ fun v hv => h v (List.mem_cons_of_mem _ hv)
    simp only [writeBlock, setPage_length, List.length_append, List.length_replicate]
    omega

theorem graphOk_take {md : Metadata} {add : UsearchAdd} {grown : List Page}
    {st st0 st1 st2 : InsertState} (hr : GraphOk md r) (hadd : Conforms md r add)
    (h : InsertSteps md r add grown slot st st0 st1 st2) {base : Rel}
    (hbase : ∀ b, getPage base.pages b = getPage r.pages b)
    (hlen : base.pages.length ≤ grown.length) (k : ℕ) :
    GraphOk md (((walRecords st).take (k + 1)).foldl applyRecord base) := by
  have hd := h.done
  have hsame : ∀ b, getPage base.pages b = getPage st.pages b :=
    fun b => (hbase b).trans (hd.same_pages b).symm
  obtain ⟨hnodes, hentry⟩ := nodesOk_insert hr hadd h
  obtain ⟨hhdr, hpage, -⟩ := applyRecords_take hd.working k base
  obtain ⟨hchain, hshape⟩ := hd.chained_take hr.chain k base hsame
  have hex : ∀ tid, HasTuple grown tid →
      HasTuple (((walRecords st).take (k + 1)).foldl applyRecord base).pages tid :=
    fun tid ht => ht.of_sameShape (hshape tid.block)
  refine ⟨⟨hchain, ?_⟩, fun b t ht => ?_, fun _ => ?_⟩
  · refine lt_of_le_of_lt ?_ (hd.grows.length_lt hr.chain.length_lt).2
    rw [applyRecord_foldl]
    refine writeBlocks_length_le hlen fun w hw => ?_
    obtain ⟨rec, hrec, hwrec⟩ := List.mem_flatMap.mp hw
    exact (hd.records_in_range (List.mem_flatMap.mpr ⟨rec, List.mem_of_mem_take hrec, hwrec⟩)).2
  · rcases hpage b with he | ⟨d, hmem, -, he⟩
    · rw [he, hsame] at ht
      exact (hnodes.disk b t ht).mono hex
    · rw [he] at ht
      exact (hnodes.copies d hmem t ht).mono hex
  · rw [hhdr, hd.hdr_eq]
    exact hex _ hentry

theorem built_graphOk {md : Metadata} (h : Built md r) : GraphOk md r := by
  refine ⟨built_chain h, ?_, ?_⟩
  · cases h with
    | @stored _ _ _ _ _ _ _ opts file _ _ hsrc hroom hf h =>
      obtain ⟨t, uh, ht, huh, rfl⟩ := storeExternalIndexWithin_done hsrc hroom hf h
      have hg := @graphStored_of_filled md opts file t uh ht huh
      have hex : ∀ i < file.nodes.length,
          HasTuple (builtRel md opts file.nodes.length t uh).pages (t.itemPointers i) := by
        intro i hi
        obtain ⟨u, hu, -, -⟩ := hg.stored i _ (List.getElem?_eq_getElem hi)
        exact ⟨u, hu⟩
      intro b u hu
      obtain ⟨posid, hu⟩ := tupleAt_of_mem hu
      obtain ⟨hlt, hips⟩ := hg.no_others _ u hu
      obtain ⟨v, hv, -, hnode⟩ := hg.stored u.seqid _ (List.getElem?_eq_getElem hlt)
      rw [hips] at hv
      obtain rfl : u = v := Option.some.inj (hu.symm.trans hv)
      have hmem := List.getElem_mem hlt
      exact nodeOk_of_rewritten (file.wellFormed _ hmem) hnode (file.slots_lt _ hmem) hex
    | empty uh dimensions opts =>
      intro b t ht
      obtain ⟨posid, ht⟩ := tupleAt_of_mem ht
      obtain ⟨h1, h2, -⟩ := tupleAt_eq_some ht
      exact absurd (h1.trans h2) (Nat.not_succ_le_zero 0)
  · cases h with
    | @stored _ _ _ _ _ _ _ opts file _ _ hsrc hroom hf h =>
      intro _
      obtain ⟨t, uh, ht, huh, rfl⟩ := storeExternalIndexWithin_done hsrc hroom hf h
      have hg := @graphStored_of_filled md opts file t uh ht huh
      obtain ⟨u, hu, -, -⟩ := hg.stored _ _ (List.getElem?_eq_getElem file.entry_lt)
      rw [entryPointer, hg.entry]
      exact ⟨u, hu⟩
    | empty uh dimensions opts => exact fun h => absurd rfl h

def replay (r : Rel) (records : List WalRecord) : Rel := records.foldl applyRecord r

/-- `LogRun md r0 r records`: from the durable image `r0`, inserts led to `r`
    and emitted the records. A failed insert leaves a block and no record. -/
inductive LogRun (md : Metadata) (r0 : Rel) : Rel → List WalRecord → Prop where
  | start : LogRun md r0 r0 []
  | insert {r : Rel} {records : List WalRecord} {add : UsearchAdd} {st : InsertState}
      (run : LogRun md r0 r records) (hadd : Conforms md r add)
        (h : insertWork md r add = .done st) :
      LogRun md r0 (finishInsert r st) (records ++ walRecords st)
  | abort {r : Rel} {records : List WalRecord} (run : LogRun md r0 r records)
      (h : r.pages.length + 1 < InvalidBlockNumber) :
      LogRun md r0 { r with pages := r.pages ++ [zeroPage] } records

/-- Durable images: an index as it was built, or as recovery left it after a
    crash at which the first `k` records were on disk. -/
inductive Durable (md : Metadata) : Rel → Prop where
  | built {r : Rel} (h : Built md r) : Durable md r
  | recovered {r0 r : Rel} {records : List WalRecord} (h : Durable md r0)
      (run : LogRun md r0 r records) (k : ℕ) : Durable md (replay r0 (records.take k))

theorem writeBlocks_congr {ws : List (ℕ × Page)} {ps qs : List Page} (hw : ∀ w ∈ ws, 1 ≤ w.1)
    (h : ∀ b, getPage ps b = getPage qs b) (b : ℕ) :
    getPage (ws.foldl writeBlock ps) b = getPage (ws.foldl writeBlock qs) b := by
  induction ws generalizing ps qs with
  | nil => exact h b
  | cons w ws ih =>
    refine ih (fun v hv => hw v (List.mem_cons_of_mem _ hv)) fun c => ?_
    rw [getPage_writeBlock (hw w List.mem_cons_self),
      getPage_writeBlock (hw w List.mem_cons_self), h c]

structure Replayed (md : Metadata) (r0 r : Rel) (records : List WalRecord) : Prop where
  graph : GraphOk md r
  same_pages : ∀ b, getPage (replay r0 records).pages b = getPage r.pages b
  length_le : (replay r0 records).pages.length ≤ r.pages.length
  prefixes : ∀ k, GraphOk md (replay r0 (records.take k))

theorem Replayed.abort {md : Metadata} (h : Replayed md r0 r records)
    (hlen : r.pages.length + 1 < InvalidBlockNumber) :
    Replayed md r0 { r with pages := r.pages ++ [zeroPage] } records := by
  have hget : ∀ b, getPage (r.pages ++ [zeroPage]) b = getPage r.pages b :=
    getPage_append_zero r.pages
  have hex : ∀ tid, HasTuple r.pages tid → HasTuple (r.pages ++ [zeroPage]) tid := by
    rintro tid ⟨t, ht⟩
    exact ⟨t, by rw [tupleAt_append_zero]; exact ht⟩
  refine ⟨⟨step_chain h.graph.chain (.abort hlen), fun b t ht => ?_, fun hn =>
    hex _ (h.graph.entry hn)⟩, fun b => ?_, ?_, h.prefixes⟩
  · simp only [hget] at ht
    exact (h.graph.nodes b t ht).mono hex
  · rw [h.same_pages b]
    exact (hget b).symm
  · have := h.length_le
    simp only [List.length_append, List.length_singleton]
    omega

theorem Replayed.insert {md : Metadata} {add : UsearchAdd} {st : InsertState}
    (h : Replayed md r0 r records) (hadd : Conforms md r add)
    (hi : insertWork md r add = .done st) :
    Replayed md r0 (finishInsert r st) (records ++ walRecords st) := by
  obtain ⟨grown, slot, st0, st1, st2, hsteps⟩ := insertWork_steps h.graph.chain hi
  have hd := hsteps.done
  have hgrow := (hd.grows.length_lt h.graph.chain.length_lt).1
  have hsplit : replay r0 (records ++ walRecords st) = replay (replay r0 records) (walRecords st) :=
    List.foldl_append
  refine ⟨?_, ?_, ?_, fun k => ?_⟩
  · have hg :=
      @graphOk_take _ _ _ _ _ _ _ _ _ h.graph hadd hsteps ⟨r.header, st.pages⟩ hd.same_pages
      (le_of_eq hd.working.length_eq) st.ed.stateSize
    rw [take_walRecords] at hg
    exact hg
  · intro b
    rw [hsplit, replay, finishInsert, applyRecord_foldl, applyRecord_foldl]
    exact writeBlocks_congr (fun w hw => (hd.records_in_range hw).1)
      (fun c => (h.same_pages c).trans (hd.same_pages c).symm) b
  · rw [hd.finish_length, hsplit, replay, applyRecord_foldl]
    exact writeBlocks_length_le (h.length_le.trans hgrow) fun w hw => (hd.records_in_range hw).2
  · -- the crash is before, or after the own record of, this insert
    rcases Nat.lt_or_ge records.length k with hk | hk
    · obtain ⟨j, rfl⟩ : ∃ j, k = records.length + (j + 1) := ⟨k - records.length - 1, by omega⟩
      rw [List.take_length_add_append, replay, List.foldl_append]
      exact graphOk_take h.graph hadd hsteps h.same_pages (h.length_le.trans hgrow) j
    · rw [List.take_append_of_le_length hk]
      exact h.prefixes k

theorem logRun_replayed {md : Metadata} (h0 : GraphOk md r0) (run : LogRun md r0 r records) :
    Replayed md r0 r records := by
  induction run with
  | start =>
    refine ⟨h0, fun _ => rfl, le_refl _, fun k => ?_⟩
    rw [List.take_nil]
    exact h0
  | insert _ hadd h ih => exact ih.insert hadd h
  | abort _ h ih => exact ih.abort h

theorem durable_graphOk {md : Metadata} (h : Durable md r) : GraphOk md r := by
  induction h with
  | built h => exact built_graphOk h
  | recovered _ run k ih => exact (logRun_replayed ih run).prefixes k

/-- At every crash point, over any number of earlier crashes, the recovered
    index counts its tuples, has no dangling slot, has an entry unless it is
    empty, and its links lead from the first data page to the last. -/
theorem replay_take_consistent {md : Metadata} (h0 : Durable md r0) (run : LogRun md r0 r records)
    (k : ℕ) :
    let r' := replay r0 (records.take k)
    r'.header.numVectors = (r'.pages.flatMap (·.items)).length ∧
    (r'.header.numVectors ≠ 0 → HasTuple r'.pages (entryPointer r'.header.usearchHeader)) ∧
    (∀ tid t, tupleAt r'.pages tid = some t → ∀ l ≤ levelFromNode t.node,
      ∀ j < neighborsCount md t.node l,
        HasTuple r'.pages (slotItemPointer t.node (slotOffset md l j))) ∧
    (dataBlocks r'.pages = [] → r'.header.lastDataBlock = InvalidBlockNumber) ∧
    ∀ first rest, dataBlocks r'.pages = first :: rest → ∀ fuel ≥ r'.pages.length,
      (followChain r'.pages fuel first).getLast? = some r'.header.lastDataBlock := by
  intro r'
  have hg : GraphOk md r' := durable_graphOk (.recovered h0 run k)
  refine ⟨?_, hg.entry, ?_, no_last hg.chain, ?_⟩
  · have hlen := congrArg List.length (pages_numbered hg.chain)
    rw [List.length_range] at hlen
    rw [← hlen]
    simp only [List.length_flatMap, seqids, List.length_map]
  · intro tid t ht l hl j hj
    exact (hg.nodes _ t (mem_of_tupleAt ht)).slots l hl j hj
  · intro first rest hcons fuel hf
    obtain ⟨hfollow, hlast, -⟩ := links_follow hg.chain hcons
    rw [hfollow fuel hf]
    exact hlast

theorem emptyIndex_durable : Durable tinyMetadata emptyIndex := .built (.empty _ _ _)

/-- Before its first record an empty index has an entry slot that leads
    nowhere. -/
theorem empty_index_entry_dangles :
    ¬ ∀ (md : Metadata) (r0 r : Rel) (records : List WalRecord), Durable md r0 →
      LogRun md r0 r records →
      ∀ k, HasTuple (replay r0 (records.take k)).pages
        (entryPointer (replay r0 (records.take k)).header.usearchHeader) := by
  intro h
  obtain ⟨t, ht⟩ := h tinyMetadata emptyIndex emptyIndex [] emptyIndex_durable .start 0
  obtain ⟨h1, h2, -⟩ := tupleAt_eq_some ht
  exact absurd (h1.trans h2) (Nat.not_succ_le_zero 0)

instance (st : InsertState) (tid : ItemPointerData) : Decidable (CanRead st tid) :=
  decidable_of_iff ((currentTuple st tid).isSome = true) Option.isSome_iff_exists

instance (ex : ItemPointerData → Prop) [DecidablePred ex] (md : Metadata) (e : NodeEdit)
    (node : List UInt8) : Decidable (EditFits md ex e node) :=
  match e with
  | .storeVector bytes =>
    inferInstanceAs (Decidable (nodeSizeBytes md (levelFromNode node) + bytes.length ≤ node.length))
  | .setNeighbors level slots =>
    inferInstanceAs (Decidable (level ≤ levelFromNode node ∧ slots.length < 2 ^ 32 ∧
      4 + 6 * slots.length ≤ neighborsRoom md level ∧ ∀ tid ∈ slots, ex tid))

instance (md : Metadata) (st : InsertState) (e : ItemPointerData × NodeEdit) :
    Decidable (EditOk md st e) :=
  decidable_of_iff (∃ t ∈ currentTuple st e.1, EditFits md (CanRead st) e.2 t.node) Iff.rfl

instance decidableEditsOk (md : Metadata) :
    ∀ (es : List (ItemPointerData × NodeEdit)) (st : InsertState), Decidable (EditsOk md es st)
  | [], _ => isTrue trivial
  | e :: es, st =>
    have : Decidable (∀ st', writeNodeMut e.1 (e.2.apply md) st = .done st' → EditsOk md es st') :=
      match h : writeNodeMut e.1 (e.2.apply md) st with
      | .done st' =>
        have := decidableEditsOk md es st'
        decidable_of_iff (EditsOk md es st') ⟨fun he _ heq => Outcome.done.inj heq ▸ he,
          fun he => he _ rfl⟩
      | .fault _ => isTrue fun _ heq => (by cases heq)
      | .unfinished => isTrue fun _ heq => (by cases heq)
    inferInstanceAs (Decidable (EditOk md st e ∧ _))

def conformsCheck (md : Metadata) (r : Rel) (add : UsearchAdd) : Bool :=
  match prepareIndexTuple md r.header.numVectors add.level ⟨r.pages, r.header, extraDirtiedNew⟩ with
  | .done (st, slot) =>
    match writeNodeMut slot
      (fun _ => usearchInitNode (newTuple md r add.level).size add.label add.level) st with
    | .done st1 => EditsOk md (add.edits slot) st1 ∧ CanRead st1 (entryPointer (add.header slot))
    | _ => true
  | _ => true

theorem conforms_of_check {md : Metadata} {add : UsearchAdd} (hcounts : HasCounts md)
    (h : conformsCheck md r add = true) : Conforms md r add := by
  refine ⟨hcounts, fun st slot st1 hprep hinit => ?_⟩
  simpa only [conformsCheck, hprep, hinit, decide_eq_true_eq] using h

def insertRecords (r : Rel) (add : UsearchAdd) : List WalRecord :=
  match insertWork tinyMetadata r add with
  | .done st => walRecords st
  | _ => []

theorem logRun_inserted {r0 r : Rel} {records : List WalRecord} {add : UsearchAdd}
    (run : LogRun tinyMetadata r0 r records) (h : conformsCheck tinyMetadata r add = true) :
    LogRun tinyMetadata r0 (inserted r add) (records ++ insertRecords r add) := by
  unfold inserted insertRecords
  cases hst : insertWork tinyMetadata r add with
  | done st => exact run.insert (conforms_of_check ⟨by decide, by decide⟩ h) hst
  | fault e => rwa [List.append_nil]
  | unfinished => rwa [List.append_nil]

def threeInserts : List WalRecord :=
  insertRecords wideIndex (linkedAdd ⟨0, 1⟩ []) ++
    insertRecords (inserted wideIndex (linkedAdd ⟨0, 1⟩ [])) (linkedAdd ⟨0, 2⟩ [⟨1, 1⟩]) ++
    insertRecords indexOfTwo (linkedAdd ⟨0, 3⟩ [⟨1, 1⟩])

theorem threeInserts_run : LogRun tinyMetadata wideIndex indexOfThree threeInserts := by
  have first := @logRun_inserted wideIndex wideIndex [] (linkedAdd ⟨0, 1⟩ []) .start
    (by decide +kernel)
  rw [List.nil_append] at first
  have second := @logRun_inserted _ _ _ (linkedAdd ⟨0, 2⟩ [⟨1, 1⟩]) first (by decide +kernel)
  exact logRun_inserted second (by decide +kernel)

/-- The third insert writes two records; the crash comes between them. Node 2 then
    names node 0, and node 0 does not name node 2 yet. -/
theorem replay_between_records :
    threeInserts.length = 4 ∧
      let r := replay wideIndex (threeInserts.take 3)
      r.header.numVectors = 3 ∧ (r.pages.flatMap (·.items)).length = 3 ∧
      HasTuple r.pages (entryPointer r.header.usearchHeader) ∧
      ((tupleAt r.pages ⟨3, 1⟩).map fun t => slotItemPointer t.node 14) = some ⟨1, 1⟩ ∧
      ((tupleAt r.pages ⟨1, 1⟩).map fun t => slotItemPointer t.node 14) = some ⟨2, 1⟩ ∧
      ∀ tid t, tupleAt r.pages tid = some t → ∀ l ≤ levelFromNode t.node,
        ∀ j < neighborsCount tinyMetadata t.node l,
          HasTuple r.pages (slotItemPointer t.node (slotOffset tinyMetadata l j)) := by
  have hdurable : Durable tinyMetadata wideIndex := .built (.empty _ _ _)
  have hcount : (replay wideIndex (threeInserts.take 3)).header.numVectors = 3 := by decide +kernel
  obtain ⟨hitems, hentry, hslots, -⟩ := replay_take_consistent hdurable threeInserts_run 3
  exact ⟨by decide +kernel, hcount, hitems.symm.trans hcount, hentry (by rw [hcount]; decide),
    by decide +kernel, by decide +kernel, hslots⟩

end Lantern.WalReplay
