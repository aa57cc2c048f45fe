import Lantern.WalReplay

set_option autoImplicit false

/-!
# The labels of stored nodes

An insert reads and writes pages through its table of registered copies. What it
writes into a node that was there before lies behind the head of the node, so that
every label stays as it is.
-/
namespace Lantern.StoredLabels
open FuelLoop ByteStrings NodeLayout PageLayout IndexRelation PageChain StoreIndex
  StoreRewrite InsertTuple
open BulkDelete SystemRuns IndexRuns WalReplay

theorem extraDirtiedGet_write (ed : ExtraDirtiedBufs) (b : ℕ) (f : Page → Page) (c : ℕ) :
    extraDirtiedGet (ed.write b f) c =
      if c = b then (extraDirtiedGet ed c).map f else extraDirtiedGet ed c := by
  obtain ⟨bufs, size, last⟩ := ed
  simp only [extraDirtiedGet, ExtraDirtiedBufs.write]
  induction bufs with
  | nil => simp [writeDirtied]
  | cons d bufs ih =>
    rw [writeDirtied]
    by_cases hb : d.blockno = b
    · by_cases hc : c = b
      · simp [hb, hc]
      · simp [hb, Ne.symm hc, hc]
    · by_cases hc : d.blockno = c
      · simp [hc, hc ▸ hb]
      · simpa [hb, hc] using ih

theorem extraDirtiedGet_append (ed : ExtraDirtiedBufs) (d : DirtiedPage) (c : ℕ) :
    extraDirtiedGet { ed with bufs := ed.bufs ++ [d] } c =
      (extraDirtiedGet ed c).or (if d.blockno = c then some d.page else none) := by
  simp only [extraDirtiedGet, List.find?_append, Option.map_or]
  by_cases hc : d.blockno = c
  · simp [hc]
  · simp [hc]

theorem openWalState_bufs {ed ed' : ExtraDirtiedBufs} (h : openWalState ed = .done ed') :
    ed'.bufs = ed.bufs := by
  unfold openWalState at h
  split_ifs at h
  · cases h
    rfl
  · cases h
    rfl

theorem registerMut_get {st : InsertState} {b : ℕ} {ed : ExtraDirtiedBufs}
    (h : registerMut b st = .done ed) (c : ℕ) :
    extraDirtiedGet ed c = if c = b then some (currentPage st b) else extraDirtiedGet st.ed c := by
  unfold registerMut at h
  cases hget : extraDirtiedGet st.ed b with
  | some p =>
    rw [hget] at h
    cases h
    split_ifs with hc
    · rw [hc, hget, currentPage, hget, Option.getD_some]
    · rfl
  | none =>
    rw [hget] at h
    obtain ⟨ed1, hopen, h⟩ := Outcome.bind_eq_done.mp h
    split_ifs at h
    have hed := extraDirtiedAdd_done h
    have hsame :
        ∀ e, extraDirtiedGet { ed1 with pagesInTheLastState := e } c = extraDirtiedGet st.ed c := by
      intro e
      simp only [extraDirtiedGet, openWalState_bufs hopen]
    rw [hed, extraDirtiedGet_append, hsame]
    split_ifs with hb hc hc
    · rw [hc, hget, currentPage, hget]
      rfl
    · exact absurd hb.symm hc
    · exact absurd hc.symm hb
    · exact Option.or_none

variable {f : List UInt8 → List UInt8} {tid : ItemPointerData} {st' : InsertState}
  {node : List UInt8}

theorem currentPage_write {st : InsertState} (h : writeNodeMut tid f st = .done st') (c : ℕ) :
    currentPage st' c = if c = tid.block then setItemNode f tid.posid
      (currentPage st c) else currentPage st c := by
  obtain ⟨ed, hed, h⟩ := Outcome.bind_eq_done.mp h
  split_ifs at h with hpos
  cases h
  rw [currentPage, extraDirtiedGet_write, registerMut_get hed]
  split_ifs with hc
  · rw [hc]
    rfl
  · rfl

theorem currentTuple_write {st : InsertState} (h : writeNodeMut tid f st = .done st')
    (slot : ItemPointerData) :
    currentTuple st' slot = if slot = tid then (currentTuple st slot).map fun t =>
      { t with node := f t.node }
      else currentTuple st slot := by
  have hpos : tid.posid ≠ 0 := by
    obtain ⟨ed, hed, h⟩ := Outcome.bind_eq_done.mp h
    split_ifs at h with hpos
    exact fun h0 => hpos (.inl h0)
  unfold currentTuple
  rw [currentPage_write h]
  by_cases hslot : slot.posid = 0
  · rw [if_pos hslot, if_pos hslot, if_neg (fun he : slot = tid => hpos (he ▸ hslot))]
  rw [if_neg hslot, if_neg hslot]
  by_cases hb : slot.block = tid.block
  · rw [if_pos hb]
    simp only [setItemNode, List.getElem?_modify]
    by_cases hp : slot.posid = tid.posid
    · have he : slot = tid := by
        cases slot
        cases tid
        simp only at hb hp
        rw [hb, hp]
      rw [if_pos he, he]
      simp
    · have hne : ¬ tid.posid - 1 = slot.posid - 1 := by omega
      rw [if_neg (fun he => hp (congrArg _ he))]
      simp [hne]
  · rw [if_neg hb, if_neg (fun he => hb (congrArg _ he))]

def EveryNode (P : ItemPointerData → List UInt8 → Prop) (st : InsertState) : Prop :=
  ∀ slot t, currentTuple st slot = some t → P slot t.node

theorem EveryNode.write {P : ItemPointerData → List UInt8 → Prop} {st : InsertState}
    (hst : EveryNode P st) (hf : ∀ node, P tid node → P tid (f node))
    (h : writeNodeMut tid f st = .done st') : EveryNode P st' := by
  intro slot t ht
  rw [currentTuple_write h] at ht
  split_ifs at ht with he
  · obtain ⟨u, hu, rfl⟩ := Option.map_eq_some_iff.mp ht
    subst he
    exact hf _ (hst _ u hu)
  · exact hst slot t ht

theorem EveryNode.edits {P : ItemPointerData → List UInt8 → Prop} {md : Metadata}
    {edits : List (ItemPointerData × NodeEdit)} {st : InsertState} (hst : EveryNode P st)
    (hf : ∀ slot node (e : NodeEdit), P slot node → P slot (e.apply md node))
    (h : editNodes md edits st = .done st') : EveryNode P st' := by
  refine foldSteps_invariant (fun _ s => EveryNode P s) [] ?_ hst h
  intro _ s e t _ hs ht
  exact hs.write (fun node => hf _ node e.2) ht

/-- The node has a head, and the label of the node that the slot held before. -/
def KeepsLabel (pages : List Page) (slot : ItemPointerData) (node : List UInt8) : Prop :=
  nodeHeadBytes ≤ node.length ∧ ∀ t, tupleAt pages slot = some t →
    labelFromNode node = labelFromNode t.node

theorem patch_head {off : ℕ} {w : List UInt8} (hoff : nodeHeadBytes ≤ off)
    (h : nodeHeadBytes ≤ node.length) :
    nodeHeadBytes ≤
      (patch off w node).length ∧ labelFromNode (patch off w node) = labelFromNode node := by
  rw [nodeHeadBytes] at hoff h ⊢
  refine ⟨?_, ?_⟩
  · simp only [patch, List.length_append, List.length_take]
    omega
  · rw [labelFromNode, labelFromNode, patch, List.append_assoc, slice_append_left (by simp; omega)]
    simp only [slice, List.drop_zero, List.take_take]
    rw [min_eq_left (by omega)]

theorem NodeEdit.apply_head (md : Metadata) (e : NodeEdit) (h : nodeHeadBytes ≤ node.length) :
    nodeHeadBytes ≤
      (e.apply md node).length ∧ labelFromNode (e.apply md node) = labelFromNode node := by
  cases e with
  | storeVector bytes =>
    refine patch_head ?_ h
    rw [nodeSizeBytes]
    omega
  | setNeighbors level slots => exact patch_head (headBytes_le_neighborsOffset md level) h

theorem KeepsLabel.apply {pages : List Page} {slot : ItemPointerData} (md : Metadata) (e : NodeEdit)
    (h : KeepsLabel pages slot node) : KeepsLabel pages slot (e.apply md node) := by
  obtain ⟨hlen, hlabel⟩ := NodeEdit.apply_head md e h.1
  exact ⟨hlen, fun t ht => hlabel.trans (h.2 t ht)⟩

def Headed (pages : List Page) : Prop :=
  ∀ slot t, tupleAt pages slot = some t → nodeHeadBytes ≤ t.node.length

section Insert
variable {md : Metadata} {r : Rel} {add : UsearchAdd} {grown : List Page} {slot : ItemPointerData}
variable {st st0 st1 st2 : InsertState}

theorem placed_current {t : HnswIndexTuple} (h : TuplePlaced r t grown st slot)
    (tid : ItemPointerData) :
    currentTuple (counted st) tid = tupleAt grown tid := by
  have hpage : currentPage (counted st) tid.block = getPage grown tid.block := by
    unfold currentPage
    change (extraDirtiedGet st.ed tid.block).getD (getPage st.pages tid.block) = _
    cases hget : extraDirtiedGet st.ed tid.block with
    | some p =>
      obtain ⟨d, hd, hb, rfl⟩ := extraDirtiedGet_mem hget
      rw [Option.getD_some, (h.own d hd).1, hb]
    | none => exact h.working.clean _ fun d hd _ => extraDirtiedGet_none hget d hd
  rw [currentTuple, hpage]
  rfl

theorem placed_slot_free (hr : IndexChain r)
    (h : TuplePlaced r (newTuple md r add.level) grown st slot) (u : HnswIndexTuple) :
    tupleAt r.pages slot ≠ some u := by
  intro hu
  have hlast : r.header.lastDataBlock = InvalidBlockNumber ∨
      1 ≤ r.header.lastDataBlock ∧ r.header.lastDataBlock ≤ r.pages.length := by
    by_cases hl : r.header.lastDataBlock = InvalidBlockNumber
    · exact .inl hl
    · obtain ⟨-, -, h1, h2, -⟩ := hr.chained.lastPage hl
      exact .inr ⟨h1, h2⟩
  have hnew := h.grows.tupleAt_new hlast
  have hsame := (h.grows.tupleAt_old hu).symm.trans hnew
  have hseq : u.seqid = r.header.numVectors := by rw [Option.some.inj hsame]; rfl
  -- the sequence numbers of stored items are below the number of vectors
  obtain ⟨h1, h2, -, -⟩ := tupleAt_eq_some hu
  have hmem : u.seqid ∈ r.pages.flatMap seqids := by
    obtain ⟨b, hb⟩ : ∃ b, slot.block = b + 1 := ⟨slot.block - 1, by omega⟩
    refine List.mem_flatMap.mpr ⟨getPage r.pages slot.block, ?_,
      List.mem_map_of_mem (mem_of_tupleAt hu)⟩
    rw [hb, getPage, List.getD_eq_getElem?_getD, List.getElem?_eq_getElem (by omega),
      Option.getD_some]
    exact List.getElem_mem _
  rw [pages_numbered hr, List.mem_range] at hmem
  omega

theorem everyNode_placed (hr : IndexChain r) (hhead : Headed r.pages)
    (h : TuplePlaced r (newTuple md r add.level) grown st slot) :
    EveryNode (KeepsLabel r.pages) (counted st) := by
  intro tid t ht
  rw [placed_current h] at ht
  rcases h.grows.tupleAt_inv ht with hold | ⟨htid, rfl⟩
  · refine ⟨hhead tid t hold, fun u hu => ?_⟩
    rw [Option.some.inj (hold.symm.trans hu)]
  · have hslot : tid = slot := htid
    refine ⟨?_, fun u hu => absurd (hslot ▸ hu) (placed_slot_free hr h u)⟩
    simp only [newTuple, List.length_replicate, usearchNodeBytes]
    omega

theorem everyNode_insert (hr : IndexChain r) (hhead : Headed r.pages)
    (h : InsertSteps md r add grown slot st st0 st1 st2) : EveryNode (KeepsLabel r.pages) st := by
  have hplaced := everyNode_placed hr hhead h.placed
  have hinit : EveryNode (KeepsLabel r.pages) st1 := by
    refine hplaced.write (fun node _ => ⟨?_, fun u hu => ?_⟩) h.initialised
    · simp only [usearchInitNode, List.length_append, leBytes_length, nodeHeadBytes]
      omega
    · exact absurd hu (placed_slot_free hr h.placed u)
  have hedited := hinit.edits (fun slot node e hk => hk.apply md e) h.edited
  rw [h.final]
  exact hedited

theorem getPage_finishInsert (hw : Working grown st) (b : ℕ) :
    getPage (finishInsert r st).pages b = currentPage st b := by
  have hwrites : ∀ w ∈ (walRecords st).flatMap (·.pages), 1 ≤ w.1 ∧ w.2 = currentPage st w.1 := by
    intro w hmem
    obtain ⟨rec, hrec, hwrec⟩ := List.mem_flatMap.mp hmem
    obtain ⟨d, hd, rfl⟩ := mem_walRecords_pages hrec hwrec
    refine ⟨(hw.in_range d hd).1, ?_⟩
    rw [currentPage, extraDirtiedGet_of_mem hw.nodup hd, Option.getD_some]
  rw [finishInsert, applyRecord_foldl, getPage_writeBlocks (currentPage st) hwrites]
  split_ifs with hb
  · rfl
  · rw [currentPage]
    cases hget : extraDirtiedGet st.ed b with
    | none => rfl
    | some p =>
      obtain ⟨d, hd, rfl, -⟩ := extraDirtiedGet_mem hget
      refine absurd (List.mem_map.mpr ⟨(d.blockno, d.page), ?_, rfl⟩) hb
      have hin : (d.blockno, d.page) ∈ statePages st.ed d.walState :=
        List.mem_map.mpr ⟨d, List.mem_filter.mpr ⟨hd, by simp⟩, rfl⟩
      cases hs : d.walState with
      | none => exact List.mem_flatMap.mpr ⟨_, List.mem_cons_self, hs ▸ hin⟩
      | some i =>
        have hi := List.mem_map_of_mem (f := fun i =>
          (⟨none, statePages st.ed (some i)⟩ : WalRecord))
          (List.mem_range.mpr (hw.states d hd i hs))
        exact List.mem_flatMap.mpr ⟨_, List.mem_cons_of_mem _ hi, hs ▸ hin⟩

theorem tupleAt_finishInsert (hw : Working grown st) (tid : ItemPointerData) :
    tupleAt (finishInsert r st).pages tid = currentTuple st tid := by
  rw [tupleAt, currentTuple, getPage_finishInsert hw]

end Insert

/-- Entries stay where they are, and none that is deleted comes back. -/
def DeletedStay (pages pages' : List Page) : Prop :=
  ∀ slot t, tupleAt pages slot = some t → ∃ t', tupleAt pages' slot = some t' ∧
    (labelFromNode t.node = INVALID_ELEMENT_LABEL → labelFromNode t'.node = INVALID_ELEMENT_LABEL)

theorem DeletedStay.refl (pages : List Page) : DeletedStay pages pages := fun _ t ht => ⟨t, ht, id⟩

theorem DeletedStay.trans {ps qs rs : List Page} (h : DeletedStay ps qs) (h' : DeletedStay qs rs) :
    DeletedStay ps rs := by
  intro slot t ht
  obtain ⟨u, hu, hdead⟩ := h slot t ht
  obtain ⟨v, hv, hdead'⟩ := h' slot u hu
  exact ⟨v, hv, fun hd => hdead' (hdead hd)⟩

theorem insert_keeps {md : Metadata} {r : Rel} {add : UsearchAdd} {st : InsertState}
    (hr : IndexChain r) (hhead : Headed r.pages) (h : insertWork md r add = .done st) :
    Headed (finishInsert r st).pages ∧ DeletedStay r.pages (finishInsert r st).pages := by
  obtain ⟨grown, slot, st0, st1, st2, hsteps⟩ := insertWork_steps hr h
  have hw := hsteps.done.working
  have hevery := everyNode_insert hr hhead hsteps
  refine ⟨fun tid t ht => ?_, fun tid t ht => ?_⟩
  · rw [tupleAt_finishInsert hw] at ht
    exact (hevery tid t ht).1
  · -- the page has as many items as the grown one, which has the old ones
    have hold : HasTuple grown tid := ⟨t, hsteps.placed.grows.tupleAt_old ht⟩
    have hshape :
        SameShape (getPage grown tid.block) (getPage (finishInsert r st).pages tid.block) := by
      rw [getPage_finishInsert hw]
      exact currentPage_sameShape hw _
    obtain ⟨t', ht'⟩ := hold.of_sameShape hshape
    refine ⟨t', ht', fun hdead => ?_⟩
    rw [tupleAt_finishInsert hw] at ht'
    exact ((hevery tid t' ht').2 t ht).trans hdead

def relabel (callback : ItemPointerData → Bool) (t : HnswIndexTuple) : HnswIndexTuple :=
  if condemned callback t then { t with node := resetNodeLabel t.node } else t

theorem resetNodeLabel_label (node : List UInt8) :
    labelFromNode (resetNodeLabel node) = INVALID_ELEMENT_LABEL := by
  rw [labelFromNode, resetNodeLabel, patch_zero, slice_append_left (by simp)]
  have hwhole := slice_whole (leBytes 8 INVALID_ELEMENT_LABEL)
  rw [leBytes_length] at hwhole
  rw [hwhole, leNat_leBytes_of_lt (by decide)]

theorem resetNodeLabel_length (h : nodeHeadBytes ≤ node.length) :
    (resetNodeLabel node).length = node.length := by
  rw [nodeHeadBytes] at h
  exact patch_length (by rw [leBytes_length]; omega)

theorem relabel_length (callback : ItemPointerData → Bool) {t : HnswIndexTuple}
    (h : nodeHeadBytes ≤ t.node.length) : (relabel callback t).node.length = t.node.length := by
  unfold relabel
  split_ifs
  · exact resetNodeLabel_length h
  · rfl

theorem tupleAt_bulkDeleteBlocks (callback : ItemPointerData → Bool) (blocks removed : ℕ)
    (pages : List Page) (slot : ItemPointerData) :
    tupleAt (bulkDeleteBlocks callback blocks 1 pages removed).pages slot =
      if slot.block ≤ blocks then
        (tupleAt pages slot).map (relabel callback) else tupleAt pages slot := by
  obtain ⟨-, hget⟩ := bulkDeleteBlocks_spec callback blocks 1 removed pages (le_refl _)
  have hdelete : ∀ p : Page, (deleteOnPage callback p).items[slot.posid - 1]? =
      (p.items[slot.posid - 1]?).map (relabel callback) := fun p => List.getElem?_map
  have hnone : ∀ {b : ℕ}, b = 0 ∨ pages.length < b → (getPage pages b).items = [] := by
    rintro b (rfl | hb)
    · rfl
    · rw [getPage_beyond hb]
      rfl
  unfold tupleAt
  by_cases hpos : slot.posid = 0
  · simp [hpos]
  rw [if_neg hpos, if_neg hpos, hget]
  by_cases hin : slot.block ≤ blocks
  · rw [if_pos hin]
    by_cases hrange : 1 ≤ slot.block ∧ slot.block ≤ pages.length
    · rw [if_pos (by omega), hdelete]
    · rw [if_neg (by omega), hnone (by omega)]
      rfl
  · rw [if_neg hin, if_neg (by omega)]

theorem built_headed {md : Metadata} {r : Rel} (h : Built md r) : Headed r.pages := by
  intro slot t ht
  exact le_trans (Nat.le_add_right _ _) (le_trans (Nat.le_add_right _ _)
    ((built_graphOk h).nodes slot.block t (mem_of_tupleAt ht)).size_le)

theorem step_keeps {r r' : Rel} (hr : IndexChain r) (hhead : Headed r.pages) (h : IndexStep r r') :
    Headed r'.pages ∧ DeletedStay r.pages r'.pages := by
  cases h with
  | insert h => exact insert_keeps hr hhead h
  | abort h =>
    refine ⟨fun slot t ht => hhead slot t ?_, fun slot t ht => ⟨t, ?_, id⟩⟩
    · rwa [tupleAt_append_zero] at ht
    · rwa [tupleAt_append_zero]
  | bulkDelete callback blocks h =>
    refine ⟨fun slot t ht => ?_, fun slot t ht => ?_⟩
    · rw [tupleAt_bulkDeleteBlocks] at ht
      split_ifs at ht
      · obtain ⟨u, hu, rfl⟩ := Option.map_eq_some_iff.mp ht
        rw [relabel_length callback (hhead slot u hu)]
        exact hhead slot u hu
      · exact hhead slot t ht
    · rw [tupleAt_bulkDeleteBlocks, ht]
      split_ifs
      · refine ⟨relabel callback t, rfl, fun hdead => ?_⟩
        unfold relabel
        split_ifs
        · exact resetNodeLabel_label t.node
        · exact hdead
      · exact ⟨t, rfl, id⟩

theorem reachable_headed {r : Rel} (h : Reachable indexSystem r) : Headed r.pages := by
  have hboth := h.invariant (fun r => IndexChain r ∧ Headed r.pages) ?_ ?_
  · exact hboth.2
  · rintro r ⟨md, hb⟩
    exact ⟨built_chain hb, built_headed hb⟩
  · rintro r r' ⟨hr, hhead⟩ hs
    exact ⟨step_chain hr hs, (step_keeps hr hhead hs).1⟩

def indexesAfter (r : Rel) : System Rel := ⟨fun s => s = r, IndexStep⟩

theorem deletedStay_after {r s : Rel} (hr : IndexChain r) (hhead : Headed r.pages)
    (h : Reachable (indexesAfter r) s) : DeletedStay r.pages s.pages := by
  have hall :=
    h.invariant (fun s => IndexChain s ∧ Headed s.pages ∧ DeletedStay r.pages s.pages) ?_ ?_
  · exact hall.2.2
  · rintro s rfl
    exact ⟨hr, hhead, .refl _⟩
  · rintro s t ⟨hs, hheads, hstay⟩ hstep
    obtain ⟨hheadt, hstayt⟩ := step_keeps hs hheads hstep
    exact ⟨step_chain hs hstep, hheadt, hstay.trans hstayt⟩

end Lantern.StoredLabels
