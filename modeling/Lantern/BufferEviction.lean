import Lantern.StoreNodes
import Lantern.SystemRuns

set_option autoImplicit false

/-!
# Storing nodes through the buffer pool

The pages of `StoreNodes` live in shared buffers. A buffer that nobody has pinned and
that is not marked dirty may be dropped, and the page is then read again as it was last
written to disk. The loop of `storeExternalIndexNodes` marks a page dirty when it links
the next one to it, and the page in hand at the end of a call not at all.
-/
namespace Lantern.BufferEviction
open FuelLoop NodeLayout PageLayout IndexRelation StoreNodes SystemRuns

structure StoreCall where
  data : List UInt8
  bufferSize : ℕ
  bytesWritten : ℕ

/-- `store` are the pages as read through the buffers, with the variables of the
    loop, and `disk` the pages as last written back. Only for the specification:
    `nodes` are the nodes passed so far, `specials` the values written to special
    blocks, and `lastDropped` tells whether the buffer of the last data block was
    ever dropped. -/
structure Build where
  store : StoreState
  call : Option StoreCall
  disk : List Page
  dirty : ℕ → Bool
  nodes : List (List UInt8)
  specials : ℕ → Option HnswIndexPageSpecialBlock
  lastDropped : Bool

def markBufferDirty (b : ℕ) (s : Build) : Build :=
  { s with dirty := Function.update s.dirty b true }

def writeSpecial (b : ℕ) (f : HnswIndexPageSpecialBlock → HnswIndexPageSpecialBlock)
    (s : Build) : Build :=
  { s with specials := Function.update s.specials b ((s.specials b).map f) }

def linkMarks (s : Build) : Build :=
  match s.store.buf with
  | some b => markBufferDirty b (writeSpecial b (fun sp =>
      { sp with nextblockno := s.store.pages.length + 1, lastId := s.store.nodeId - 1 }) s)
  | none => s

/-- The new block is all zero on disk; `PageInit` does not mark it. -/
def createMarked (s : Build) : Outcome Fault Build :=
  (createPage s.store).map fun t =>
    let s' := linkMarks s
    { s' with
      store := t
      disk := s.disk ++ [zeroPage]
      specials := Function.update s'.specials (s.store.pages.length + 1)
        (some ⟨s.store.nodeId, 0, InvalidBlockNumber⟩) }

def prepareMarked (nodeSize : ℕ) (s : Build) : Outcome Fault Build :=
  if s.store.forceCreatePage ∨
      pageGetFreeSpace (currentPage s.store) < sizeofHnswIndexTuple + nodeSize then createMarked s
  else .done s

def putMarked (tuple : HnswIndexTuple) (s : Build) : Outcome Fault Build :=
  (putNode tuple s.store).map fun t =>
    { s with store := t, nodes := if t.forceCreatePage then s.nodes else s.nodes ++ [tuple.node] }

def storeMarked (md : Metadata) (dim : ℕ) (data : List UInt8) (s : Build) : Outcome Fault Build :=
  if data.length < nodeHeadBytes then .fault .readPastBuffer
  else
    let nodeSize := nodeTupleSize data dim md
    (prepareMarked nodeSize s).bind fun s =>
      if 100 ≤ levelFromNode data then .fault (levelTooLarge s.store.nodeId (levelFromNode data))
      else (stageNode data nodeSize).bind fun node => putMarked ⟨s.store.nodeId, nodeSize, node⟩ s

def passMarked (md : Metadata) (dim : ℕ) (c : StoreCall) (s : Build) : Outcome Fault Build :=
  let node := c.data.drop c.bytesWritten
  (storeMarked md dim node s).map fun t =>
    if t.store.forceCreatePage then t
    else { t with
      call := some { c with bytesWritten := c.bytesWritten + nodeTupleSize node dim md } }

def closeCall (s : Build) : Option Build :=
  match s.store.buf with
  | none => none
  | some b => some (writeSpecial b (fun sp => { sp with lastId := s.store.nodeId - 1 })
      { s with store := closePage s.store, call := none })

def pinned (s : Build) (b : ℕ) : Prop := s.call.isSome ∧ s.store.buf = some b

instance (s : Build) (b : ℕ) : Decidable (pinned s b) := inferInstanceAs (Decidable (_ ∧ _))

inductive Action where
  | call (data : List UInt8) (bufferSize : ℕ)
  | pass
  | finish
  | writeBack (b : ℕ)
  | evict (b : ℕ)

def step (md : Metadata) (dim : ℕ) (s : Build) : Action → Option Build
  | .call data bufferSize =>
    if s.call.isSome then none
    else some { s with
      call := some ⟨data, bufferSize, 0⟩
      store := openPage s.store.pages s.store.lastBlock s.store.nodeId s.store.itemPointers }
  | .pass => match s.call with
    | none => none
    | some c =>
      if c.bytesWritten < c.bufferSize then
        match passMarked md dim c s with
        | .done t => some t
        | _ => none
      else none
  | .finish => match s.call with
    | none => none
    | some c => if c.bytesWritten < c.bufferSize then none else closeCall s
  | .writeBack b =>
    if s.dirty b then some { s with
      disk := setPage s.disk b (getPage s.store.pages b)
      dirty := Function.update s.dirty b false }
    else none
  | .evict b =>
    if s.dirty b ∨ pinned s b then none
    else some { s with
      store := { s.store with pages := setPage s.store.pages b (getPage s.disk b) }
      lastDropped := s.lastDropped || decide (b = s.store.lastBlock ∧ b ≠ InvalidBlockNumber) }

/-- Before the first call only codebook pages exist, and what they hold is on
    disk or marked dirty. -/
structure Begins (s : Build) : Prop where
  call : s.call = none
  no_nodes : s.nodes = [] ∧ s.store.nodeId = 0
  no_pages : s.store.buf = none ∧ s.store.lastBlock = InvalidBlockNumber ∧
    s.store.forceCreatePage = true
  specials : ∀ b, s.specials b = none
  disk_length : s.disk.length = s.store.pages.length
  dirty_pages : ∀ b, s.store.pages.length < b → s.dirty b = false
  clean : ∀ b, s.dirty b = false → getPage s.store.pages b = getPage s.disk b
  not_dropped : s.lastDropped = false

def builds (md : Metadata) (dim : ℕ) : System Build :=
  actionSystem Begins (step md dim) fun _ _ => True

/-- Every node can be read back from where its item pointer says, and every
    special block holds what was written to it. -/
structure Readable (s : Build) : Prop where
  nodes : ∀ i node, s.nodes[i]? = some node →
    tupleAt s.store.pages (s.store.itemPointers i) = some ⟨i, node.length, node⟩
  specials : ∀ b sp, s.specials b = some sp → (getPage s.store.pages b).special = sp

def created (s : Build) : Build :=
  { linkMarks s with
    store := { s.store with
      pages := setPage (linkedPages s.store ++ [zeroPage]) (s.store.pages.length + 1)
        (freshPage s.store.nodeId)
      buf := some (s.store.pages.length + 1)
      lastBlock := s.store.pages.length + 1
      forceCreatePage := false }
    disk := s.disk ++ [zeroPage]
    specials := Function.update (linkMarks s).specials (s.store.pages.length + 1)
      (some ⟨s.store.nodeId, 0, InvalidBlockNumber⟩) }

theorem createMarked_done {s t : Build} (hr : Ready s.store) (h : createMarked s = .done t) :
    s.store.pages.length + 1 < InvalidBlockNumber ∧ t = created s := by
  rw [createMarked, createPage_eq hr.buf_le] at h
  split at h
  · cases h
    exact ⟨by assumption, rfl⟩
  · cases h

def stored (s : Build) (b off : ℕ) (p : Page) (node : List UInt8) : Build :=
  { s with store := recorded s.store b off p, nodes := s.nodes ++ [node] }

def refused (s : Build) : Build := { s with store := { s.store with forceCreatePage := true } }

theorem putMarked_done {s t : Build} {node : List UInt8} (hf : s.store.forceCreatePage = false)
    (h : putMarked ⟨s.store.nodeId, node.length, node⟩ s = .done t) :
    ∃ b, s.store.buf = some b ∧ (t = refused s ∨ ∃ p off,
      pageAddItem (getPage s.store.pages b) ⟨s.store.nodeId, node.length, node⟩ = some (p, off) ∧
        t = stored s b off p node) := by
  obtain ⟨u, hu, rfl⟩ := Outcome.map_eq_done.mp h
  cases hb : s.store.buf with
  | none => simp [putNode, hb] at hu
  | some b =>
    refine ⟨b, rfl, ?_⟩
    cases ha : pageAddItem (getPage s.store.pages b) ⟨s.store.nodeId, node.length, node⟩ with
    | none =>
      rw [putNode_none hb ha] at hu
      cases hu
      exact .inl rfl
    | some r =>
      rw [putNode_some hb ha] at hu
      cases hu
      exact .inr ⟨r.1, r.2, rfl, by simp [stored, recorded, hf]⟩

variable {data : List UInt8} {c i : ℕ}

theorem storeMarked_done {md : Metadata} {dim : ℕ} {s t : Build} (hr : Ready s.store)
    (h : storeMarked md dim data s = .done t) :
    ∃ u node, (u = s ∨ s.store.pages.length + 1 < InvalidBlockNumber ∧ u = created s) ∧
      u.store.forceCreatePage = false ∧
      putMarked ⟨u.store.nodeId, node.length, node⟩ u = .done t := by
  unfold storeMarked at h
  split at h
  · cases h
  dsimp only at h
  obtain ⟨u, hu, hput⟩ := Outcome.bind_eq_done.mp h
  split at hput
  · cases hput
  obtain ⟨node, hnode, hput⟩ := Outcome.bind_eq_done.mp hput
  refine ⟨u, node, ?_, ?_, ?_⟩
  · unfold prepareMarked at hu
    split at hu
    · exact .inr (createMarked_done hr hu)
    · cases hu
      exact .inl rfl
  · unfold prepareMarked at hu
    split at hu
    · obtain ⟨-, rfl⟩ := createMarked_done hr hu
      rfl
    · rename_i hc
      cases hu
      simpa using (not_or.mp hc).1
  · rw [(stageNode_eq_done hnode).2]
    exact hput

theorem storeMarked_call {md : Metadata} {dim : ℕ} {s t : Build} (hr : Ready s.store)
    (h : storeMarked md dim data s = .done t) : t.call = s.call := by
  obtain ⟨u, node, hu, hf, hput⟩ := storeMarked_done hr h
  have hcall : u.call = s.call := by
    rcases hu with rfl | ⟨-, rfl⟩
    · rfl
    · simp only [created, linkMarks]
      split <;> rfl
  obtain ⟨b, -, rfl | ⟨p, off, -, rfl⟩⟩ := putMarked_done hf hput
  · exact hcall
  · exact hcall

structure Sound (s : Build) : Prop where
  ready : Ready s.store
  ids : s.store.nodeId = s.nodes.length
  disk_length : s.disk.length = s.store.pages.length
  dirty_le : ∀ b, s.store.pages.length < b → s.dirty b = false
  last_clean : s.store.lastBlock ≠ InvalidBlockNumber → s.dirty s.store.lastBlock = false

theorem linkMarks_dirty {s : Build} (b : ℕ) :
    (linkMarks s).dirty b = (s.dirty b || decide (s.store.buf = some b)) := by
  unfold linkMarks markBufferDirty writeSpecial
  cases hb : s.store.buf with
  | none => simp
  | some c =>
    by_cases h : b = c
    · simp [h]
    · simp [h, Ne.symm h]

theorem Sound.created {s : Build} (h : Sound s)
    (hl : s.store.pages.length + 1 < InvalidBlockNumber) :
    Sound (created s) where
  ready := ⟨by simp [BufferEviction.created, hl.ne], fun he => absurd he hl.ne,
    fun _ => by simp [BufferEviction.created]⟩
  ids := by
    simp only [BufferEviction.created, linkMarks]
    split <;> exact h.ids
  disk_length := by simp [BufferEviction.created, h.disk_length]
  dirty_le := by
    intro b hb
    simp only [BufferEviction.created, setPage_length, List.length_append, linkedPages_length,
      List.length_singleton] at hb ⊢
    rw [linkMarks_dirty, h.dirty_le b (by omega), Bool.false_or, decide_eq_false_iff_not]
    intro hbuf
    have := h.ready.buf_le b hbuf
    omega
  last_clean := by
    intro _
    simp only [BufferEviction.created]
    rw [linkMarks_dirty, h.dirty_le _ (by omega), Bool.false_or, decide_eq_false_iff_not]
    intro hbuf
    have := h.ready.buf_le _ hbuf
    omega

theorem Sound.refused {s : Build} (h : Sound s) : Sound (refused s) :=
  ⟨h.ready.force, h.ids, h.disk_length, h.dirty_le, h.last_clean⟩

theorem Sound.stored {s : Build} (h : Sound s) (b off : ℕ) (p : Page) (node : List UInt8) :
    Sound (stored s b off p node) where
  ready := h.ready.recorded
  ids := by simp [BufferEviction.stored, recorded, h.ids]
  disk_length := by simpa [BufferEviction.stored, recorded] using h.disk_length
  dirty_le := by simpa [BufferEviction.stored, recorded] using h.dirty_le
  last_clean := h.last_clean

def linkPage (s : StoreState) (p : Page) : Page :=
  { p with special := { p.special with nextblockno := s.pages.length + 1, lastId := s.nodeId - 1 } }

theorem getPage_linkedPages {s : StoreState} (hr : Ready s) (b : ℕ) :
    getPage (linkedPages s) b =
      if s.buf = some b then linkPage s (getPage s.pages b) else getPage s.pages b := by
  unfold linkedPages
  rcases hr.buf_cases with ⟨-, hb⟩ | ⟨-, hb, h1, h2⟩
  · simp [hb]
  · simp only [hb, Option.some.injEq]
    by_cases hc : s.lastBlock = b
    · subst hc
      rw [if_pos rfl, getPage_setPage_self h1 h2]
      rfl
    · rw [if_neg hc, getPage_setPage_ne (Ne.symm hc)]

theorem getPage_created {s : Build} (hr : Ready s.store) {b : ℕ}
    (hb : b ≠ s.store.pages.length + 1) :
    getPage (created s).store.pages b =
      if s.store.buf = some b then linkPage s.store (getPage s.store.pages b)
      else getPage s.store.pages b := by
  simp only [created]
  rw [getPage_setPage_ne hb, getPage_append_zero, getPage_linkedPages hr]

theorem getPage_created_new (s : Build) :
    getPage (created s).store.pages (s.store.pages.length + 1) = freshPage s.store.nodeId := by
  simp only [created]
  exact getPage_setPage_self (by omega) (by simp) _

theorem created_items {s : Build} (hr : Ready s.store) {b : ℕ} (hb : b ≠ s.store.pages.length + 1) :
    (getPage (created s).store.pages b).items = (getPage s.store.pages b).items ∧
      (getPage (created s).store.pages b).pdSpecial = (getPage s.store.pages b).pdSpecial := by
  rw [getPage_created hr hb]
  split <;> exact ⟨rfl, rfl⟩

@[simp] theorem created_nodes (s : Build) : (created s).nodes = s.nodes := by
  simp only [created, linkMarks]
  split <;> rfl

theorem created_specials (s : Build) {b : ℕ} (hb : b ≠ s.store.pages.length + 1) :
    (created s).specials b = if s.store.buf = some b then (s.specials b).map (fun sp =>
      { sp with nextblockno := s.store.pages.length + 1, lastId := s.store.nodeId - 1 })
      else s.specials b := by
  simp only [created, Function.update_of_ne hb, linkMarks, markBufferDirty, writeSpecial]
  cases hbuf : s.store.buf with
  | none => simp
  | some c =>
    by_cases hc : b = c
    · simp [hc]
    · simp [hc, Ne.symm hc]

theorem tupleAt_congr {pages pages' : List Page} {tid : ItemPointerData}
    (h : (getPage pages' tid.block).items = (getPage pages tid.block).items) :
    tupleAt pages' tid = tupleAt pages tid := by
  unfold tupleAt
  rw [h]

/-- An allocated page that was never initialised; it refuses every item. -/
structure Blank (p : Page) : Prop where
  no_special : p.pdSpecial = 0
  no_items : p.items = []

theorem blank_zeroPage : Blank zeroPage := ⟨rfl, rfl⟩

theorem Blank.refuses {p : Page} (h : Blank p) (t : HnswIndexTuple) : pageAddItem p t = none := by
  simp [pageAddItem, pdLower, pdUpper, h.no_special, h.no_items, sizeofItemIdData]

/-- Every page but the one in hand is on disk or marked dirty. -/
structure Intact (s : Build) : Prop where
  readable : Readable s
  placed : ∀ i < s.nodes.length, (s.store.itemPointers i).block ≤ s.store.pages.length
  specials_le : ∀ b sp, s.specials b = some sp → b ≤ s.store.pages.length
  clean : ∀ b, s.store.buf ≠ some b → s.dirty b = false →
    getPage s.store.pages b = getPage s.disk b
  last_blank : ∀ b, s.store.buf = some b → Blank (getPage s.disk b)

theorem Intact.created {s : Build} (h : Intact s) (hs : Sound s) : Intact (created s) where
  readable := by
    refine ⟨fun i node hi => ?_, fun b sp hsp => ?_⟩
    · rw [created_nodes] at hi
      have hlt : i < s.nodes.length := (List.getElem?_eq_some_iff.mp hi).1
      have hle := h.placed i hlt
      rw [← h.readable.nodes i node hi]
      exact tupleAt_congr (created_items hs.ready (by simp only [BufferEviction.created]; omega)).1
    · by_cases hb : b = s.store.pages.length + 1
      · subst hb
        simp only [BufferEviction.created, Function.update_self, Option.some.injEq] at hsp
        rw [getPage_created_new, ← hsp]
        rfl
      · rw [created_specials s hb] at hsp
        rw [getPage_created hs.ready hb]
        split
        · rename_i hbuf
          rw [if_pos hbuf] at hsp
          obtain ⟨old, hold, rfl⟩ := Option.map_eq_some_iff.mp hsp
          rw [← h.readable.specials b old hold]
          rfl
        · rename_i hbuf
          rw [if_neg hbuf] at hsp
          exact h.readable.specials b sp hsp
  placed := by
    intro i hi
    rw [created_nodes] at hi
    have := h.placed i hi
    simp only [BufferEviction.created, setPage_length, List.length_append, linkedPages_length,
      List.length_singleton]
    omega
  specials_le := by
    intro b sp hsp
    simp only [BufferEviction.created, setPage_length, List.length_append, linkedPages_length,
      List.length_singleton]
    by_cases hb : b = s.store.pages.length + 1
    · omega
    · rw [created_specials s hb] at hsp
      split at hsp
      · obtain ⟨old, hold, -⟩ := Option.map_eq_some_iff.mp hsp
        have := h.specials_le b old hold
        omega
      · have := h.specials_le b sp hsp
        omega
  clean := by
    intro b hbuf hdirty
    have hb : b ≠ s.store.pages.length + 1 := fun hb => hbuf (congrArg some hb.symm)
    have hmark : s.dirty b = false ∧ s.store.buf ≠ some b := by
      have := (linkMarks_dirty b).symm.trans hdirty
      simpa using this
    rw [getPage_created hs.ready hb, if_neg hmark.2, h.clean b hmark.2 hmark.1]
    exact (getPage_append_zero s.disk b).symm
  last_blank := by
    intro b hb
    obtain rfl : s.store.pages.length + 1 = b := Option.some.inj hb
    have hz : getPage (BufferEviction.created s).disk (s.store.pages.length + 1) = zeroPage := by
      simp only [BufferEviction.created]
      rw [getPage_append_zero, getPage_beyond (by rw [hs.disk_length]; omega)]
    rw [hz]
    exact blank_zeroPage

theorem Intact.refused {s : Build} (h : Intact s) : Intact (refused s) :=
  ⟨⟨h.readable.nodes, h.readable.specials⟩, h.placed, h.specials_le, h.clean, h.last_blank⟩

section Stored
variable {s : Build} {off : ℕ} {p : Page} {node : List UInt8}

theorem getPage_stored (hpos : 0 < s.store.lastBlock)
    (hle : s.store.lastBlock ≤ s.store.pages.length) (b : ℕ) :
    getPage (stored s s.store.lastBlock off p node).store.pages b =
      if b = s.store.lastBlock then p else getPage s.store.pages b := by
  simp only [stored, recorded]
  split
  · rename_i hb
    rw [hb, getPage_setPage_self hpos hle]
  · rename_i hb
    rw [getPage_setPage_ne hb]

@[simp] theorem stored_pages_length (b : ℕ) :
    (stored s b off p node).store.pages.length = s.store.pages.length := setPage_length _ _ _

theorem stored_itemPointers (b i : ℕ) : (stored s b off p node).store.itemPointers i =
    if i = s.store.nodeId then ⟨b, off⟩ else s.store.itemPointers i := by
  simp only [stored, recorded, Function.update_apply]

theorem tupleAt_stored (hpos : 0 < s.store.lastBlock)
    (hle : s.store.lastBlock ≤ s.store.pages.length)
    (hadd : p.items = (getPage s.store.pages s.store.lastBlock).items ++
      [⟨s.store.nodeId, node.length, node⟩])
    {tid : ItemPointerData} {t : HnswIndexTuple} (h : tupleAt s.store.pages tid = some t) :
    tupleAt (stored s s.store.lastBlock off p node).store.pages tid = some t := by
  unfold tupleAt at h ⊢
  rw [getPage_stored hpos hle]
  split at h
  · cases h
  · rename_i hposid
    rw [if_neg hposid]
    split
    · rename_i hb
      rw [hb] at h
      rw [hadd, List.getElem?_append_left (List.getElem?_eq_some_iff.mp h).1]
      exact h
    · exact h

theorem Intact.stored (h : Intact s) (hs : Sound s) {b : ℕ} (hbuf : s.store.buf = some b)
    (hadd : pageAddItem (getPage s.store.pages b) ⟨s.store.nodeId, node.length,
      node⟩ = some (p, off)) :
    Intact (stored s b off p node) := by
  obtain ⟨rfl, rfl⟩ := pageAddItem_eq_some hadd
  obtain ⟨-, hb, hpos, hle⟩ := hs.ready.buf_cases.resolve_left (by simp [hbuf])
  obtain rfl : s.store.lastBlock = b := Option.some.inj (hb.symm.trans hbuf)
  refine ⟨⟨fun i m hi => ?_, fun c sp hsp => ?_⟩, fun i hi => ?_, fun c sp hsp => ?_,
    fun c hc hd => ?_, h.last_blank⟩
  · rw [stored_itemPointers]
    split
    · rename_i hid
      have hm : m = node := by
        simpa [BufferEviction.stored, hid, hs.ids] using hi.symm
      subst hm hid
      rw [tupleAt, getPage_stored hpos hle]
      simp
    · rename_i hid
      have hm : s.nodes[i]? = some m := by
        have hlt := (List.getElem?_eq_some_iff.mp hi).1
        simp only [BufferEviction.stored, List.length_append, List.length_singleton] at hlt
        rw [← hi]
        exact (List.getElem?_append_left (by rw [hs.ids] at hid; omega)).symm
      exact tupleAt_stored hpos hle rfl (h.readable.nodes i m hm)
  · rw [getPage_stored hpos hle]
    split
    · rename_i hc
      exact h.readable.specials _ sp (hc ▸ hsp)
    · exact h.readable.specials c sp hsp
  · rw [stored_itemPointers, stored_pages_length]
    split
    · exact hle
    · rename_i hid
      simp only [BufferEviction.stored, List.length_append, List.length_singleton] at hi
      exact h.placed i (by rw [hs.ids] at hid; omega)
  · rw [stored_pages_length]
    exact h.specials_le c sp hsp
  · have hne : c ≠ s.store.lastBlock := fun he => hc (by rw [he]; exact hb)
    rw [getPage_stored hpos hle, if_neg hne]
    exact h.clean c hc hd

end Stored

/-- Node `i` was stored on block `b`, of which nothing is left. -/
structure LostNode (s : Build) (b i : ℕ) : Prop where
  passed : i < s.nodes.length
  block_eq : (s.store.itemPointers i).block = b
  block_le : b ≤ s.store.pages.length
  page : Blank (getPage s.store.pages b)
  disk : Blank (getPage s.disk b)

theorem LostNode.not_readable {s : Build} {b : ℕ} (h : LostNode s b i) : ¬ Readable s := by
  intro hr
  have hread := hr.nodes i _ (List.getElem?_eq_getElem h.passed)
  rw [tupleAt, h.block_eq, h.page.no_items] at hread
  split at hread <;> cases hread

theorem LostNode.created {s : Build} {b : ℕ} (h : LostNode s b i) (hs : Sound s) :
    LostNode (created s) b i := by
  have hb : b ≠ s.store.pages.length + 1 := by have := h.block_le; omega
  obtain ⟨hitems, hspecial⟩ := created_items hs.ready hb
  refine ⟨by rw [created_nodes]; exact h.passed, h.block_eq, ?_,
    ⟨hspecial.trans h.page.no_special, hitems.trans h.page.no_items⟩, ?_⟩
  · have := h.block_le
    simp only [BufferEviction.created, setPage_length, List.length_append, linkedPages_length,
      List.length_singleton]
    omega
  · simp only [BufferEviction.created]
    rw [getPage_append_zero]
    exact h.disk

theorem LostNode.stored {s : Build} {b off : ℕ} {p : Page} {node : List UInt8} (h : LostNode s b i)
    (hs : Sound s) (hbuf : s.store.buf = some c)
    (hadd : pageAddItem (getPage s.store.pages c) ⟨s.store.nodeId, node.length,
      node⟩ = some (p, off)) :
    LostNode (stored s c off p node) b i := by
  obtain ⟨-, hb, hpos, hle⟩ := hs.ready.buf_cases.resolve_left (by simp [hbuf])
  obtain rfl : s.store.lastBlock = c := Option.some.inj (hb.symm.trans hbuf)
  -- the page that took the node is not the blank one
  have hne : b ≠ s.store.lastBlock := by
    rintro rfl
    rw [h.page.refuses] at hadd
    cases hadd
  have hid : i ≠ s.store.nodeId := by have := h.passed; rw [hs.ids]; omega
  refine ⟨?_, ?_, h.block_le.trans_eq (stored_pages_length _).symm, ?_, h.disk⟩
  · have := h.passed
    simp only [BufferEviction.stored, List.length_append, List.length_singleton]
    omega
  · rw [stored_itemPointers, if_neg hid]
    exact h.block_eq
  · rw [getPage_stored hpos hle, if_neg hne]
    exact h.page

structure Kept (s : Build) : Prop where
  intact : s.lastDropped = false → Intact s
  lost : s.lastDropped = true → ∃ b i, LostNode s b i

@[simp] theorem created_lastDropped (s : Build) : (created s).lastDropped = s.lastDropped := by
  simp only [created, linkMarks]
  split <;> rfl

theorem Kept.created {s : Build} (h : Kept s) (hs : Sound s) : Kept (created s) where
  intact := by
    rw [created_lastDropped]
    exact fun hd => (h.intact hd).created hs
  lost := by
    rw [created_lastDropped]
    intro hd
    obtain ⟨b, i, hl⟩ := h.lost hd
    exact ⟨b, i, hl.created hs⟩

theorem Kept.refused {s : Build} (h : Kept s) : Kept (refused s) where
  intact := fun hd => (h.intact hd).refused
  lost := by
    intro hd
    obtain ⟨b, i, hl⟩ := h.lost hd
    exact ⟨b, i, hl.passed, hl.block_eq, hl.block_le, hl.page, hl.disk⟩

theorem Kept.stored {s : Build} {off : ℕ} {p : Page} {node : List UInt8} (h : Kept s) (hs : Sound s)
    (hbuf : s.store.buf = some c)
    (hadd : pageAddItem (getPage s.store.pages c) ⟨s.store.nodeId, node.length,
      node⟩ = some (p, off)) :
    Kept (stored s c off p node) where
  intact := fun hd => (h.intact hd).stored hs hbuf hadd
  lost := by
    intro hd
    obtain ⟨b, i, hl⟩ := h.lost hd
    exact ⟨b, i, hl.stored hs hbuf hadd⟩

def LastUsed (s : Build) : Prop :=
  s.store.forceCreatePage = false → ∀ b, s.store.buf = some b →
    ∃ i < s.nodes.length, (s.store.itemPointers i).block = b

theorem lastUsed_stored (s : Build) (hs : Sound s) {b off : ℕ} {p : Page} {node : List UInt8}
    (hbuf : s.store.buf = some b) : LastUsed (stored s b off p node) := by
  intro _ c hc
  obtain rfl : b = c := Option.some.inj (hbuf.symm.trans hc)
  refine ⟨s.nodes.length, by simp [stored], ?_⟩
  rw [stored_itemPointers, if_pos hs.ids.symm]

theorem storeMarked_kept {md : Metadata} {dim : ℕ} {s t : Build} (hs : Sound s) (hk : Kept s)
    (h : storeMarked md dim data s = .done t) : Sound t ∧ Kept t ∧ LastUsed t := by
  obtain ⟨u, node, hu, hforce, hput⟩ := storeMarked_done hs.ready h
  obtain ⟨hsu, hku⟩ : Sound u ∧ Kept u := by
    rcases hu with rfl | ⟨hl, rfl⟩
    · exact ⟨hs, hk⟩
    · exact ⟨hs.created hl, hk.created hs⟩
  obtain ⟨b, hbuf, rfl | ⟨p, off, hadd, rfl⟩⟩ := putMarked_done hforce hput
  · exact ⟨hsu.refused, hku.refused, fun hf => absurd hf (by simp [refused])⟩
  · exact ⟨hsu.stored b off p node, hku.stored hsu hbuf hadd, lastUsed_stored u hsu hbuf⟩

def finished (s : Build) (b : ℕ) : Build :=
  writeSpecial b (fun sp => { sp with lastId := s.store.nodeId - 1 })
    { s with store := closePage s.store, call := none }

theorem getPage_closePage {s : StoreState} (hr : Ready s) (b : ℕ) :
    getPage (closePage s).pages b =
      if s.buf = some b then closed s.nodeId (getPage s.pages b) else getPage s.pages b := by
  rcases hr.buf_cases with ⟨-, hb⟩ | ⟨-, hb, h1, h2⟩
  · simp [closePage_of_none hb, hb]
  · rw [closePage_of_buf hb]
    simp only [hb, Option.some.injEq]
    by_cases hc : s.lastBlock = b
    · subst hc
      rw [if_pos rfl, getPage_setPage_self h1 h2]
    · rw [if_neg hc, getPage_setPage_ne (Ne.symm hc)]

theorem closePage_items {s : StoreState} (hr : Ready s) (b : ℕ) :
    (getPage (closePage s).pages b).items = (getPage s.pages b).items ∧
      (getPage (closePage s).pages b).pdSpecial = (getPage s.pages b).pdSpecial := by
  rw [getPage_closePage hr]
  split <;> exact ⟨rfl, rfl⟩

theorem closePage_fields (s : StoreState) : (closePage s).buf = s.buf ∧
    (closePage s).lastBlock = s.lastBlock ∧ (closePage s).nodeId = s.nodeId ∧
    (closePage s).itemPointers = s.itemPointers ∧
      (closePage s).forceCreatePage = s.forceCreatePage := by
  unfold closePage updateCurrent
  split <;> simp

section Finished
variable {s : Build} {b : ℕ}

theorem Sound.finished (h : Sound s) : Sound (finished s b) := by
  obtain ⟨-, hlast, hid, -, -⟩ := closePage_fields s.store
  refine ⟨h.ready.closePage, hid.trans h.ids, h.disk_length.trans (closePage_pages_length _).symm,
    fun c hc => h.dirty_le c ?_, fun hl => ?_⟩
  · rw [← closePage_pages_length s.store]
    exact hc
  · have hl' : s.store.lastBlock ≠ InvalidBlockNumber := hlast ▸ hl
    change s.dirty (closePage s.store).lastBlock = false
    rw [hlast]
    exact h.last_clean hl'

theorem Intact.finished (h : Intact s) (hs : Sound s) (hbuf : s.store.buf = some b) :
    Intact (finished s b) := by
  obtain ⟨hb, -, -, hip, -⟩ := closePage_fields s.store
  have hle : ∀ c, c ≤ s.store.pages.length → c ≤ (BufferEviction.finished s b).store.pages.length :=
    fun c hc => hc.trans_eq (closePage_pages_length _).symm
  refine ⟨⟨fun i m hi => ?_, fun c sp hsp => ?_⟩, fun i hi => ?_, fun c sp hsp => ?_,
    fun c hc hd => ?_, fun c hc => h.last_blank c (hb ▸ hc)⟩
  · change tupleAt (closePage s.store).pages ((closePage s.store).itemPointers i) = _
    rw [hip, ← h.readable.nodes i m hi]
    exact tupleAt_congr (closePage_items hs.ready _).1
  · change (getPage (closePage s.store).pages c).special = sp
    rw [getPage_closePage hs.ready]
    by_cases hc : c = b
    · subst hc
      rw [if_pos hbuf]
      simp only [BufferEviction.finished, writeSpecial, Function.update_self,
        Option.map_eq_some_iff] at hsp
      obtain ⟨old, hold, rfl⟩ := hsp
      rw [← h.readable.specials c old hold]
      rfl
    · rw [if_neg (by rw [hbuf]; simpa using Ne.symm hc)]
      simp only [BufferEviction.finished, writeSpecial, Function.update_of_ne hc] at hsp
      exact h.readable.specials c sp hsp
  · refine hle _ ?_
    change ((closePage s.store).itemPointers i).block ≤ _
    rw [hip]
    exact h.placed i hi
  · refine hle _ ?_
    by_cases hc : c = b
    · subst hc
      exact hs.ready.buf_le c hbuf
    · simp only [BufferEviction.finished, writeSpecial, Function.update_of_ne hc] at hsp
      exact h.specials_le c sp hsp
  · have hc' : s.store.buf ≠ some c := fun he => hc (hb.trans he)
    change getPage (closePage s.store).pages c = _
    rw [getPage_closePage hs.ready, if_neg hc']
    exact h.clean c hc' hd

theorem LostNode.finished (h : LostNode s c i) (hs : Sound s) : LostNode (finished s b) c i := by
  obtain ⟨hitems, hspecial⟩ := closePage_items hs.ready c
  obtain ⟨-, -, -, hip, -⟩ := closePage_fields s.store
  refine ⟨h.passed, ?_, h.block_le.trans_eq (closePage_pages_length _).symm,
    ⟨hspecial.trans h.page.no_special, hitems.trans h.page.no_items⟩, h.disk⟩
  change ((closePage s.store).itemPointers i).block = c
  rw [hip]
  exact h.block_eq

theorem Kept.finished (h : Kept s) (hs : Sound s) (hbuf : s.store.buf = some b) :
    Kept (finished s b) where
  intact := fun hd => (h.intact hd).finished hs hbuf
  lost := by
    intro hd
    obtain ⟨c, i, hl⟩ := h.lost hd
    exact ⟨c, i, hl.finished hs⟩

end Finished

def writtenBack (s : Build) (b : ℕ) : Build :=
  { s with
    disk := setPage s.disk b (getPage s.store.pages b)
    dirty := Function.update s.dirty b false }

def dropped (s : Build) (b : ℕ) : Build :=
  { s with
    store := { s.store with pages := setPage s.store.pages b (getPage s.disk b) }
    lastDropped := s.lastDropped || decide (b = s.store.lastBlock ∧ b ≠ InvalidBlockNumber) }

section Buffers
variable {s : Build} {b : ℕ}

theorem getPage_setPage_cases (pages : List Page) (p : Page) (c : ℕ) :
    getPage (setPage pages b p) c = getPage pages c ∨ c = b ∧
      getPage (setPage pages b p) c = p := by
  by_cases hc : c = b
  · subst hc
    by_cases hr : 0 < c ∧ c ≤ pages.length
    · exact .inr ⟨rfl, getPage_setPage_self hr.1 hr.2 p⟩
    · refine .inl ?_
      rcases Nat.eq_zero_or_pos c with rfl | hpos
      · rfl
      · have hlt : pages.length < c := by omega
        rw [getPage_beyond hlt, getPage_beyond (by simpa using hlt)]
  · exact .inl (getPage_setPage_ne hc _ _)

theorem Sound.writtenBack (h : Sound s) (hd : s.dirty b = true) : Sound (writtenBack s b) where
  ready := h.ready
  ids := h.ids
  disk_length := by simpa [BufferEviction.writtenBack] using h.disk_length
  dirty_le := by
    intro c hc
    simp only [BufferEviction.writtenBack, Function.update_apply]
    split
    · rfl
    · exact h.dirty_le c hc
  last_clean := by
    intro hl
    have hne : s.store.lastBlock ≠ b := by
      rintro rfl
      rw [h.last_clean hl] at hd
      cases hd
    simp only [BufferEviction.writtenBack, Function.update_of_ne hne]
    exact h.last_clean hl

theorem Intact.writtenBack (h : Intact s) (hs : Sound s) (hd : s.dirty b = true) :
    Intact (writtenBack s b) where
  readable := ⟨h.readable.nodes, h.readable.specials⟩
  placed := h.placed
  specials_le := h.specials_le
  clean := by
    intro c hc hdc
    rcases @getPage_setPage_cases b s.disk (getPage s.store.pages b) c with he | ⟨rfl, he⟩
    · by_cases hcb : c = b
      · -- block 0 is not among the pages
        have hle : b ≤ s.store.pages.length := by
          by_contra hlt
          rw [hs.dirty_le b (by omega)] at hd
          cases hd
        subst hcb
        rcases Nat.eq_zero_or_pos c with rfl | hpos
        · rfl
        · exact (getPage_setPage_self hpos (by rw [hs.disk_length]; exact hle) _).symm
      · simp only [BufferEviction.writtenBack, Function.update_of_ne hcb] at hdc ⊢
        rw [he]
        exact h.clean c hc hdc
    · exact he.symm
  last_blank := by
    intro c hc
    have hne : c ≠ b := by
      rintro rfl
      obtain ⟨hl, hb, -, -⟩ := hs.ready.buf_cases.resolve_left (by
        intro hnone
        rw [show s.store.buf = some c from hc] at hnone
        cases hnone.2)
      rw [show s.store.buf = some c from hc] at hb
      rw [Option.some.inj hb, hs.last_clean hl] at hd
      cases hd
    simp only [BufferEviction.writtenBack]
    rw [getPage_setPage_ne hne]
    exact h.last_blank c hc

theorem Kept.writtenBack (h : Kept s) (hs : Sound s) (hd : s.dirty b = true) :
    Kept (writtenBack s b) where
  intact := fun hl => (h.intact hl).writtenBack hs hd
  lost := by
    intro hl
    obtain ⟨c, i, hlost⟩ := h.lost hl
    refine ⟨c, i, hlost.passed, hlost.block_eq, hlost.block_le, hlost.page, ?_⟩
    simp only [BufferEviction.writtenBack]
    rcases @getPage_setPage_cases b s.disk (getPage s.store.pages b) c with he | ⟨rfl, he⟩
    · rw [he]
      exact hlost.disk
    · rw [he]
      exact hlost.page

theorem Sound.dropped (h : Sound s) : Sound (dropped s b) where
  ready := ⟨h.ready.buf_eq, h.ready.forced, by
    simpa [BufferEviction.dropped] using h.ready.in_range⟩
  ids := h.ids
  disk_length := by simpa [BufferEviction.dropped] using h.disk_length
  dirty_le := by simpa [BufferEviction.dropped] using h.dirty_le
  last_clean := h.last_clean

theorem Intact.dropped_pages (h : Intact s) (hd : s.dirty b = false) (hb : s.store.buf ≠ some b) :
    setPage s.store.pages b (getPage s.disk b) = s.store.pages := by
  refine pages_ext (setPage_length _ _ _) fun c => ?_
  rcases @getPage_setPage_cases b s.store.pages (getPage s.disk b) c with he | ⟨rfl, he⟩
  · exact he
  · rw [he, h.clean c hb hd]

theorem Intact.dropped (h : Intact s) (hd : s.dirty b = false) (hb : s.store.buf ≠ some b) :
    Intact (dropped s b) := by
  have hpages : (BufferEviction.dropped s b).store.pages = s.store.pages := h.dropped_pages hd hb
  refine ⟨⟨fun i m hi => ?_, fun c sp hsp => ?_⟩, fun i hi => ?_, fun c sp hsp =>
    ?_, fun c hc hdc => ?_, h.last_blank⟩
  · rw [hpages]
    exact h.readable.nodes i m hi
  · rw [hpages]
    exact h.readable.specials c sp hsp
  · rw [hpages]
    exact h.placed i hi
  · rw [hpages]
    exact h.specials_le c sp hsp
  · rw [hpages]
    exact h.clean c hc hdc

theorem Intact.dropped_last (h : Intact s) (hs : Sound s) (hb : s.store.buf = some b)
    (hi : i < s.nodes.length) (hblock : (s.store.itemPointers i).block = b) :
    LostNode (BufferEviction.dropped s b) b i := by
  obtain ⟨-, hlast, hpos, hle⟩ := hs.ready.buf_cases.resolve_left (by simp [hb])
  obtain rfl : s.store.lastBlock = b := Option.some.inj (hlast.symm.trans hb)
  refine ⟨hi, hblock, by simpa [BufferEviction.dropped] using hle, ?_, h.last_blank _ hb⟩
  simp only [BufferEviction.dropped]
  rw [getPage_setPage_self hpos hle]
  exact h.last_blank _ hb

theorem LostNode.dropped (h : LostNode s c i) : LostNode (dropped s b) c i := by
  refine ⟨h.passed, h.block_eq, by simpa [BufferEviction.dropped] using h.block_le, ?_, h.disk⟩
  simp only [BufferEviction.dropped]
  rcases @getPage_setPage_cases b s.store.pages (getPage s.disk b) c with he | ⟨rfl, he⟩
  · rw [he]
    exact h.page
  · rw [he]
    exact h.disk

theorem Kept.dropped (h : Kept s) (hs : Sound s) (hd : s.dirty b = false)
    (hlast : s.store.buf = some b → ∃ i < s.nodes.length, (s.store.itemPointers i).block = b) :
    Kept (dropped s b) := by
  have hflag : s.store.buf = some b ↔ b = s.store.lastBlock ∧ b ≠ InvalidBlockNumber := by
    rcases hs.ready.buf_cases with ⟨hl, hb⟩ | ⟨hl, hb, -, -⟩
    · rw [hb, hl]
      simp
    · rw [hb, Option.some.injEq]
      constructor
      · rintro rfl
        exact ⟨rfl, hl⟩
      · exact fun hc => hc.1.symm
  constructor
  · intro hdrop
    simp only [BufferEviction.dropped, Bool.or_eq_false_iff, decide_eq_false_iff_not,
      ← hflag] at hdrop
    exact (h.intact hdrop.1).dropped hd hdrop.2
  · intro hdrop
    cases hold : s.lastDropped with
    | true =>
      obtain ⟨c, i, hl⟩ := h.lost hold
      exact ⟨c, i, hl.dropped⟩
    | false =>
      simp only [BufferEviction.dropped, hold, Bool.false_or, decide_eq_true_eq, ← hflag] at hdrop
      obtain ⟨i, hi, hblock⟩ := hlast hdrop
      exact ⟨b, i, (h.intact hold).dropped_last hs hdrop hi hblock⟩

end Buffers

/-- A refused node is tried again before the call can end. -/
structure Inv (s : Build) : Prop where
  sound : Sound s
  kept : Kept s
  lastUsed : LastUsed s
  settled : s.store.forceCreatePage = false ∨ s.store.buf = none ∨
    ∃ c, s.call = some c ∧ c.bytesWritten < c.bufferSize

theorem inv_begins {s : Build} (h : Begins s) : Inv s := by
  obtain ⟨hbuf, hlast, hforce⟩ := h.no_pages
  obtain ⟨hnodes, hid⟩ := h.no_nodes
  have hready : Ready s.store :=
    ⟨by rw [hbuf, if_pos hlast], fun _ => hforce, fun hl => absurd hlast hl⟩
  refine ⟨⟨hready, by rw [hid, hnodes]; rfl, h.disk_length, h.dirty_pages, fun hl =>
    absurd hlast hl⟩, ⟨fun _ => ?_, fun hd => absurd (h.not_dropped.symm.trans hd) (by simp)⟩,
    fun _ b hb => absurd (hbuf.symm.trans hb) (by simp), .inr (.inl hbuf)⟩
  refine ⟨⟨fun i m hi => ?_, fun b sp hsp => ?_⟩, fun i hi => ?_, fun b sp hsp => ?_,
    fun b _ hd => h.clean b hd, fun b hb => absurd (hbuf.symm.trans hb) (by simp)⟩
  · rw [hnodes] at hi
    cases hi
  · rw [h.specials b] at hsp
    cases hsp
  · rw [hnodes] at hi
    exact absurd hi (Nat.not_lt_zero _)
  · rw [h.specials b] at hsp
    cases hsp

section Steps
variable {md : Metadata} {dim : ℕ} {s t : Build}

theorem Inv.call (h : Inv s) (hc : s.call = none) (data : List UInt8) (bufferSize : ℕ) :
    Inv { s with
      call := some ⟨data, bufferSize, 0⟩
      store := openPage s.store.pages s.store.lastBlock s.store.nodeId s.store.itemPointers } := by
  have hready := @Ready.openPage s.store.pages s.store.lastBlock s.store.nodeId s.store.itemPointers
    h.sound.ready.in_range
  have hbuf : (openPage s.store.pages s.store.lastBlock s.store.nodeId s.store.itemPointers).buf =
      s.store.buf := h.sound.ready.buf_eq.symm
  refine ⟨⟨hready, h.sound.ids, h.sound.disk_length, h.sound.dirty_le, h.sound.last_clean⟩,
    ⟨fun hd => ?_, fun hd => ?_⟩, fun _ b hb => ?_, ?_⟩
  · have hi := h.kept.intact hd
    exact ⟨⟨hi.readable.nodes, hi.readable.specials⟩, hi.placed, hi.specials_le,
      fun b hb => hi.clean b (hbuf ▸ hb), fun b hb => hi.last_blank b (hbuf ▸ hb)⟩
  · obtain ⟨b, i, hl⟩ := h.kept.lost hd
    exact ⟨b, i, hl.passed, hl.block_eq, hl.block_le, hl.page, hl.disk⟩
  · have hsome : s.store.buf = some b := hbuf.symm.trans hb
    refine h.lastUsed ?_ b hsome
    rcases h.settled with hf | hnone | ⟨c, hcall, -⟩
    · exact hf
    · rw [hsome] at hnone
      cases hnone
    · rw [hc] at hcall
      cases hcall
  · by_cases hl : s.store.lastBlock = InvalidBlockNumber
    · exact .inr (.inl (if_pos hl))
    · exact .inl (decide_eq_false hl)

theorem Inv.pass (h : Inv s) {c : StoreCall} (hc : s.call = some c)
    (hlt : c.bytesWritten < c.bufferSize) (hp : passMarked md dim c s = .done t) : Inv t := by
  obtain ⟨u, hu, rfl⟩ := Outcome.map_eq_done.mp hp
  obtain ⟨hs, hk, hl⟩ := storeMarked_kept h.sound h.kept hu
  split
  · refine ⟨hs, hk, hl, .inr (.inr ⟨c, ?_, hlt⟩)⟩
    rw [← hc]
    exact storeMarked_call h.sound.ready hu
  · rename_i hf
    refine ⟨⟨hs.ready, hs.ids, hs.disk_length, hs.dirty_le, hs.last_clean⟩,
      ⟨fun hd => ?_, fun hd => ?_⟩, hl, .inl (by simpa using hf)⟩
    · have hi := hk.intact hd
      exact ⟨⟨hi.readable.nodes, hi.readable.specials⟩, hi.placed, hi.specials_le, hi.clean,
        hi.last_blank⟩
    · obtain ⟨b, i, hlost⟩ := hk.lost hd
      exact ⟨b, i, hlost.passed, hlost.block_eq, hlost.block_le, hlost.page, hlost.disk⟩

theorem Inv.finish (h : Inv s) {c : StoreCall} (hc : s.call = some c)
    (hge : ¬ c.bytesWritten < c.bufferSize) (hf : closeCall s = some t) : Inv t := by
  unfold closeCall at hf
  split at hf
  · cases hf
  · rename_i b hb
    cases hf
    obtain ⟨hbuf, -, -, hip, hforce⟩ := closePage_fields s.store
    have hfree : s.store.forceCreatePage = false := by
      rcases h.settled with hf | hnone | ⟨c', hcall, hlt⟩
      · exact hf
      · rw [hb] at hnone
        cases hnone
      · rw [hc] at hcall
        cases hcall
        exact absurd hlt hge
    refine ⟨h.sound.finished, h.kept.finished h.sound hb, fun _ b' hb' =>
      ?_, .inl (hforce.trans hfree)⟩
    obtain ⟨i, hi, hblock⟩ := h.lastUsed hfree b' (hbuf.symm.trans hb')
    refine ⟨i, hi, ?_⟩
    change ((closePage s.store).itemPointers i).block = b'
    rw [hip]
    exact hblock

theorem Inv.evict (h : Inv s) {b : ℕ} (hd : s.dirty b = false) (hp : ¬ pinned s b) :
    Inv (dropped s b) := by
  have hlast : s.store.buf = some b → ∃ i < s.nodes.length, (s.store.itemPointers i).block = b := by
    intro hb
    have hcall : s.call = none := by
      cases hc : s.call with
      | none => rfl
      | some c => exact absurd ⟨by rw [hc]; rfl, hb⟩ hp
    refine h.lastUsed ?_ b hb
    rcases h.settled with hf | hnone | ⟨c, hc, -⟩
    · exact hf
    · rw [hb] at hnone
      cases hnone
    · rw [hcall] at hc
      cases hc
  exact ⟨h.sound.dropped, h.kept.dropped h.sound hd hlast, h.lastUsed, h.settled⟩

theorem Inv.step {a : Action} (h : Inv s) (hs : step md dim s a = some t) : Inv t := by
  cases a with
  | call data bufferSize =>
    simp only [BufferEviction.step] at hs
    split at hs
    · cases hs
    · rename_i hc
      cases hs
      exact h.call (by simpa using hc) data bufferSize
  | pass =>
    simp only [BufferEviction.step] at hs
    split at hs
    · cases hs
    · rename_i c hc
      split at hs
      · rename_i hlt
        split at hs
        · rename_i u hu
          cases hs
          exact h.pass hc hlt hu
        · cases hs
      · cases hs
  | finish =>
    simp only [BufferEviction.step] at hs
    split at hs
    · cases hs
    · rename_i c hc
      split at hs
      · cases hs
      · exact h.finish hc (by assumption) hs
  | writeBack b =>
    simp only [BufferEviction.step] at hs
    split at hs
    · rename_i hd
      cases hs
      exact ⟨h.sound.writtenBack hd, h.kept.writtenBack h.sound hd, h.lastUsed, h.settled⟩
    · cases hs
  | evict b =>
    simp only [BufferEviction.step] at hs
    split at hs
    · cases hs
    · rename_i hc
      cases hs
      obtain ⟨hd, hp⟩ := not_or.mp hc
      exact h.evict (by simpa using hd) hp

end Steps

/-- In every state of every build, whatever buffers were written back or dropped,
    the nodes and special blocks can be read back if and only if the buffer of the
    last data block was never dropped after a call released it. -/
theorem readable_iff_last_kept {md : Metadata} {dim : ℕ} {s : Build}
    (h : Reachable (builds md dim) s) :
    Readable s ↔ s.lastDropped = false := by
  have hinv : Inv s := by
    refine h.invariant Inv (fun _ => inv_begins) ?_
    rintro u v hu ⟨a, -, hstep⟩
    exact hu.step hstep
  constructor
  · intro hr
    cases hd : s.lastDropped with
    | false => rfl
    | true =>
      obtain ⟨b, i, hl⟩ := hinv.kept.lost hd
      exact absurd hr hl.not_readable
  · exact fun hd => (hinv.kept.intact hd).readable

def emptyBuild : Build :=
  ⟨⟨[], none, true, InvalidBlockNumber, 0, fun _ => ⟨0, 0⟩⟩, none, [], fun _ =>
    false, [], fun _ => none, false⟩

theorem begins_emptyBuild : Begins emptyBuild :=
  ⟨rfl, ⟨rfl, rfl⟩, ⟨rfl, rfl, rfl⟩, fun _ => rfl, rfl, fun _ _ => rfl, fun _ _ => rfl, rfl⟩

theorem dropped_buffer_loses_node :
    ¬ ∀ (md : Metadata) (dim : ℕ) (s : Build), Reachable (builds md dim) s →
      s.call = none → Readable s := by
  intro h
  obtain ⟨s, hs, hcall, hnode, hread⟩ : ∃ s, runActions (step tinyMetadata 1) emptyBuild
      [.call emptyNode 42, .pass, .finish, .evict 1] = some s ∧ s.call = none ∧
      s.nodes[0]? = some emptyNode ∧ tupleAt s.store.pages (s.store.itemPointers 0) = none :=
    ⟨_, rfl, rfl, rfl, rfl⟩
  have hreach : Reachable (builds tinyMetadata 1) s :=
    reachable_runActions (.start begins_emptyBuild) (fun _ _ _ => trivial) hs
  have hr := (h tinyMetadata 1 s hreach hcall).nodes 0 emptyNode hnode
  rw [hread] at hr
  cases hr

def quantizedBuild : Build :=
  { emptyBuild with
    store := { emptyBuild.store with pages := [pageInit sizeofHnswIndexPageSpecialBlock] }
    disk := [zeroPage]
    dirty := fun b => decide (b = 1) }

theorem begins_quantizedBuild : Begins quantizedBuild where
  call := rfl
  no_nodes := ⟨rfl, rfl⟩
  no_pages := ⟨rfl, rfl, rfl⟩
  specials _ := rfl
  not_dropped := rfl
  disk_length := rfl
  dirty_pages b hb := decide_eq_false (Nat.ne_of_gt hb)
  clean b hb := by
    have hne : b ≠ 1 := of_decide_eq_false hb
    match b with
    | 0 => rfl
    | 1 => exact absurd rfl hne
    | b + 2 => rfl

def twoCalls : List Action :=
  [.call (pairNode 1) 42, .writeBack 1, .pass, .evict 1, .finish,
    .call (emptyNode ++ pairNode 0) 84, .pass, .evict 1, .pass, .finish]

theorem two_calls_readable :
    ∃ s, runActions (step tinyMetadata 1) quantizedBuild twoCalls = some s ∧
      s.nodes = [pairNode 1, emptyNode, pairNode 0] ∧ s.lastDropped = false ∧ Readable s := by
  obtain ⟨s, hs, hnodes, hd⟩ :
      ∃ s, runActions (step tinyMetadata 1) quantizedBuild twoCalls = some s ∧
      s.nodes = [pairNode 1, emptyNode, pairNode 0] ∧ s.lastDropped = false := ⟨_, rfl, rfl, rfl⟩
  have hreach : Reachable (builds tinyMetadata 1) s :=
    reachable_runActions (.start begins_quantizedBuild) (fun _ _ _ => trivial) hs
  exact ⟨s, hs, hnodes, hd, (readable_iff_last_kept hreach).mpr hd⟩

end Lantern.BufferEviction
