import Lantern.InsertTuple

set_option autoImplicit false

/-!
# The arrays of pages that an insert has dirtied

`InsertTuple` keeps the registered pages in a list and stops at the assertion of
`extra_dirtied_add`. Here are the arrays themselves, as the code runs with
assertions disabled: a write goes to the index it goes to, and one past the end
of the allocation is a fault. A page pointer is a slot of a WAL state.
-/
namespace Lantern.ExtraDirtied
open FuelLoop PageLayout IndexRelation
open InsertTuple (MAX_GENERIC_XLOG_PAGES LDB_HNSW_INSERT_MAX_EXTRA_DIRTIED_BUFS
  LDB_HNSW_EXTRA_DIRTIED_MAX_WAL_RECORDS)

/-- `walState` is `none` for the insert's own record. -/
structure PagePtr where
  walState : Option ℕ
  slot : ℕ
  deriving DecidableEq, Repr

abbrev GenericXLogState := List ℕ

structure ExtraDirtiedBufs where
  blockno : List ℕ
  buf : List ℕ
  page : List (Option PagePtr)
  size : ℕ
  state : List (Option GenericXLogState)
  stateSize : ℕ
  pagesInTheLastState : ℕ

structure Insert where
  blocks : ℕ
  xlog : GenericXLogState
  ed : ExtraDirtiedBufs

def writeArray {α : Type} (array : List α) (i : ℕ) (v : α) : Outcome Fault (List α) :=
  if i < array.length then .done (array.set i v) else .fault .writePastBuffer

def genericXLogRegisterBuffer (st : GenericXLogState) (blockno : ℕ) :
    Outcome Fault (GenericXLogState × ℕ) :=
  if blockno ∈ st then .done (st, st.idxOf blockno)
  else if st.length < MAX_GENERIC_XLOG_PAGES then .done (st ++ [blockno], st.length)
  else .fault (.elog "maximum number 4 of generic xlog buffers is exceeded")

def extraDirtiedNew : ExtraDirtiedBufs where
  blockno := List.replicate LDB_HNSW_INSERT_MAX_EXTRA_DIRTIED_BUFS 0
  buf := List.replicate LDB_HNSW_INSERT_MAX_EXTRA_DIRTIED_BUFS 0
  page := List.replicate LDB_HNSW_INSERT_MAX_EXTRA_DIRTIED_BUFS none
  size := 0
  state := List.replicate LDB_HNSW_EXTRA_DIRTIED_MAX_WAL_RECORDS none
  stateSize := 0
  pagesInTheLastState := MAX_GENERIC_XLOG_PAGES

def extraDirtiedAdd (ed : ExtraDirtiedBufs) (blockno : ℕ) (page : PagePtr) :
    Outcome Fault ExtraDirtiedBufs :=
  (writeArray ed.page ed.size (some page)).bind fun pages =>
    (writeArray ed.buf ed.size blockno).bind fun bufs =>
      (writeArray ed.blockno ed.size blockno).map fun blocknos =>
        { ed with page := pages, buf := bufs, blockno := blocknos, size := ed.size + 1 }

def entries (ed : ExtraDirtiedBufs) : List (ℕ × Option PagePtr) :=
  (ed.blockno.zip ed.page).take ed.size

def extraDirtiedGet (ed : ExtraDirtiedBufs) (blockno : ℕ) : Option PagePtr :=
  ((entries ed).find? fun e => e.1 = blockno).bind (·.2)

def openWalState (ed : ExtraDirtiedBufs) : Outcome Fault ExtraDirtiedBufs :=
  if ed.pagesInTheLastState = MAX_GENERIC_XLOG_PAGES then
    if ed.stateSize < LDB_HNSW_EXTRA_DIRTIED_MAX_WAL_RECORDS then
      (writeArray ed.state ed.stateSize (some [])).map fun state =>
        { ed with state := state, stateSize := ed.stateSize + 1, pagesInTheLastState := 0 }
    else .fault (.elog
      "LanternDB invariant violation: too many dirtied bufs to fit in extra_dirtied WAL records")
  else .done ed

def registerLast (ed : ExtraDirtiedBufs) (blockno : ℕ) : Outcome Fault ExtraDirtiedBufs :=
  match ed.state.getD (ed.stateSize - 1) none with
  | none => .fault .nullDereference
  | some st =>
    (genericXLogRegisterBuffer st blockno).bind fun (st, slot) =>
      extraDirtiedAdd { ed with
        state := ed.state.set (ed.stateSize - 1) (some st)
        pagesInTheLastState := ed.pagesInTheLastState + 1 } blockno ⟨some (ed.stateSize - 1), slot⟩

def extraDirtiedAddWalReadBuffer (blocks : ℕ) (ed : ExtraDirtiedBufs) (blockno : ℕ) :
    Outcome Fault ExtraDirtiedBufs :=
  (openWalState ed).bind fun ed =>
    if blockno < blocks then registerLast ed blockno else .fault (.elog "could not read block")

/-- The relation when the insert starts; block 0 is the header. -/
structure IndexBlocks where
  count : ℕ
  lastDataBlock : Option ℕ
  header : 1 ≤ count
  last_data : ∀ b, lastDataBlock = some b → 1 ≤ b ∧ b < count
  extensible : count < InvalidBlockNumber

def startInsert (rel : IndexBlocks) : Insert := ⟨rel.count, [0], extraDirtiedNew⟩

def registerOwn (blockno : ℕ) (ins : Insert) : Outcome Fault Insert :=
  (genericXLogRegisterBuffer ins.xlog blockno).bind fun (xlog, slot) =>
    (extraDirtiedAdd ins.ed blockno ⟨none, slot⟩).map fun ed => { ins with xlog := xlog, ed := ed }

def registerNew (ins : Insert) : Outcome Fault Insert :=
  if ins.blocks < InvalidBlockNumber then registerOwn ins.blocks { ins with
    blocks := ins.blocks + 1 }
  else .fault (.elog "cannot extend relation beyond 4294967295 blocks")

def registerLastBlock (blockno : ℕ) (ins : Insert) : Outcome Fault Insert :=
  match extraDirtiedGet ins.ed blockno with
  | some _ => .done ins
  | none =>
    if blockno < ins.blocks then registerOwn blockno ins else .fault (.elog "could not read block")

/-- `fits` tells whether the last page has room for the tuple. -/
def prepareIndexTuple (lastDataBlock : Option ℕ) (fits : Bool) (ins : Insert) :
    Outcome Fault Insert :=
  match lastDataBlock with
  | none => registerNew ins
  | some last =>
    (registerLastBlock last ins).bind fun ins => if fits then .done ins else registerNew ins

def retrieverMut (ins : Insert) (blockno : ℕ) : Outcome Fault Insert :=
  match extraDirtiedGet ins.ed blockno with
  | some _ => .done ins
  | none =>
    (extraDirtiedAddWalReadBuffer ins.blocks ins.ed blockno).map fun ed => { ins with ed := ed }

def insertRun (rel : IndexBlocks) (fits : Bool) (requests : List ℕ) : Outcome Fault Insert :=
  (prepareIndexTuple rel.lastDataBlock fits (startInsert rel)).bind
    (foldSteps retrieverMut requests)

def pageBlock (ins : Insert) (ptr : PagePtr) : Option ℕ :=
  match ptr.walState with
  | none => ins.xlog[ptr.slot]?
  | some k => if k < ins.ed.stateSize then (ins.ed.state.getD k none).bind (·[ptr.slot]?) else none

/-- The lookup of a data block is exact, so that no block has two pages, and no
    WAL state is overfull. -/
structure Registered (ins : Insert) : Prop where
  lookup : ∀ b ptr, b ≠ 0 → (extraDirtiedGet ins.ed b = some ptr ↔ pageBlock ins ptr = some b)
  own_record : ins.xlog.length ≤ MAX_GENERIC_XLOG_PAGES
  records : ∀ k < ins.ed.stateSize, ∃ st, ins.ed.state[k]? = some (some st) ∧
    st.length ≤ MAX_GENERIC_XLOG_PAGES

theorem writeArray_take {α : Type} {array : List α} {i : ℕ} (h : i < array.length) (v : α) :
    ∃ array', writeArray array i v = .done array' ∧ array'.length = array.length ∧
      array'.take (i + 1) = array.take i ++ [v] := by
  refine ⟨array.set i v, if_pos h, List.length_set, ?_⟩
  rw [List.take_succ_eq_append_getElem (by simpa using h), List.take_set_of_le (le_refl i)]
  simp

theorem writeArray_past {α : Type} {array : List α} {i : ℕ} (h : array.length ≤ i) (v : α) :
    writeArray array i v = .fault .writePastBuffer := if_neg (by omega)

def walPtr (j : ℕ) : PagePtr := ⟨some (j / 4), j % 4⟩

def ownPtr (i : ℕ) : PagePtr := ⟨none, i + 1⟩

def pagePtrs (own wal : List ℕ) : List (Option PagePtr) :=
  (List.range own.length).map (fun i => some (ownPtr i)) ++ (List.range wal.length).map fun j =>
    some (walPtr j)

structure Arrays (ed : ExtraDirtiedBufs) (blocks : List ℕ) (ptrs : List (Option PagePtr)) :
    Prop where
  blockno_length : ed.blockno.length = 100
  buf_length : ed.buf.length = 100
  page_length : ed.page.length = 100
  size_eq : ed.size = blocks.length
  blocknos : ed.blockno.take ed.size = blocks
  pages : ed.page.take ed.size = ptrs

structure Records (ed : ExtraDirtiedBufs) (wal : List ℕ) : Prop where
  state_length : ed.state.length = 25
  stateSize_eq : ed.stateSize = (wal.length + 3) / 4
  states : ∀ k < ed.stateSize, ed.state[k]? = some (some ((wal.drop (4 * k)).take 4))
  last_state : ed.pagesInTheLastState = if wal.length % 4 = 0 then 4 else wal.length % 4

/-- The insert has registered the blocks `own` with its own record and then the
    blocks `wal` on request. -/
structure Tracks (ins : Insert) (own wal : List ℕ) : Prop where
  arrays : Arrays ins.ed (own ++ wal) (pagePtrs own wal)
  records : Records ins.ed wal
  xlog_eq : ins.xlog = 0 :: own
  nodup : (own ++ wal).Nodup
  no_header : 0 ∉ own ++ wal

variable {ed : ExtraDirtiedBufs} {bs requests : List ℕ} {b : ℕ}

theorem Arrays.add {blocks : List ℕ} {ptrs : List (Option PagePtr)} (h : Arrays ed blocks ptrs)
    (hlt : blocks.length < 100) (b : ℕ) (ptr : PagePtr) :
    ∃ ed', extraDirtiedAdd ed b ptr = .done ed' ∧ Arrays ed' (blocks ++ [b]) (ptrs ++ [some ptr]) ∧
      ed'.state = ed.state ∧ ed'.stateSize = ed.stateSize ∧
      ed'.pagesInTheLastState = ed.pagesInTheLastState := by
  have hsize := h.size_eq
  obtain ⟨pages, hpages, hpl, hpt⟩ := @writeArray_take _ ed.page ed.size
    (by rw [h.page_length]; omega) (some ptr)
  obtain ⟨bufs, hbufs, hbl, -⟩ := @writeArray_take _ ed.buf ed.size
    (by rw [h.buf_length]; omega) b
  obtain ⟨blocknos, hblocknos, hnl, hnt⟩ := @writeArray_take _ ed.blockno ed.size
    (by rw [h.blockno_length]; omega) b
  refine ⟨{ ed with page := pages, buf := bufs, blockno := blocknos, size := ed.size + 1 }, ?_, ?_,
    rfl, rfl, rfl⟩
  · rw [extraDirtiedAdd, hpages, Outcome.bind_done, hbufs, Outcome.bind_done, hblocknos,
      Outcome.map_done]
  · exact ⟨hnl.trans h.blockno_length, hbl.trans h.buf_length, hpl.trans h.page_length,
      by simp [hsize], by rw [hnt, h.blocknos], by rw [hpt, h.pages]⟩

theorem Arrays.add_past {blocks : List ℕ} {ptrs : List (Option PagePtr)} (h : Arrays ed blocks ptrs)
    (hge : 100 ≤ blocks.length) (b : ℕ) (ptr : PagePtr) :
    extraDirtiedAdd ed b ptr = .fault .writePastBuffer := by
  rw [extraDirtiedAdd, writeArray_past (by rw [h.page_length, h.size_eq]; exact hge)]
  rfl

theorem Records.opened {wal : List ℕ} (h : Records ed wal) (hw : wal.length < 100) :
    ∃ ed1, openWalState ed = .done ed1 ∧ ed1.stateSize = wal.length / 4 + 1 ∧
      ed1.pagesInTheLastState = wal.length % 4 ∧ ed1.state.length = 25 ∧
      ed1.state[wal.length / 4]? = some (some (wal.drop (4 * (wal.length / 4)))) ∧
      (∀ k < wal.length / 4, ed1.state[k]? = some (some ((wal.drop (4 * k)).take 4))) ∧
      ∀ blocks ptrs, Arrays ed blocks ptrs → Arrays ed1 blocks ptrs := by
  have hss := h.stateSize_eq
  by_cases hr : wal.length % 4 = 0
  · have hsize : ed.stateSize = wal.length / 4 := by omega
    have hlt : ed.stateSize < ed.state.length := by rw [h.state_length]; omega
    refine ⟨{ ed with
        state := ed.state.set ed.stateSize (some [])
        stateSize := ed.stateSize + 1
        pagesInTheLastState := 0 }, ?_, by simp [hsize], by simp [hr], by simp [h.state_length], ?_,
      fun k hk => ?_, fun blocks ptrs ha => ⟨ha.1, ha.2, ha.3, ha.4, ha.5, ha.6⟩⟩
    · rw [openWalState, if_pos (by rw [h.last_state, if_pos hr]; rfl), if_pos (by
        simp only [LDB_HNSW_EXTRA_DIRTIED_MAX_WAL_RECORDS, LDB_HNSW_INSERT_MAX_EXTRA_DIRTIED_BUFS,
          MAX_GENERIC_XLOG_PAGES]; omega), writeArray, if_pos hlt]
      rfl
    · simp only
      rw [hsize, List.getElem?_set_self (by omega), List.drop_eq_nil_of_le (by omega)]
    · simp only
      rw [List.getElem?_set_ne (by omega)]
      exact h.states k (by omega)
  · have hsize : ed.stateSize = wal.length / 4 + 1 := by omega
    have hlast := h.last_state
    rw [if_neg hr] at hlast
    refine ⟨ed, ?_, hsize, hlast, h.state_length, ?_, fun k hk => h.states k (by omega),
      fun _ _ ha => ha⟩
    · rw [openWalState, if_neg]
      rw [hlast]
      simp only [MAX_GENERIC_XLOG_PAGES]
      omega
    · rw [h.states _ (by omega), List.take_of_length_le (by rw [List.length_drop]; omega)]

theorem genericXLogRegisterBuffer_new {st : GenericXLogState} {b : ℕ} (hb : b ∉ st)
    (hl : st.length < MAX_GENERIC_XLOG_PAGES) :
    genericXLogRegisterBuffer st b = .done (st ++ [b], st.length) := by
  rw [genericXLogRegisterBuffer, if_neg hb, if_pos hl]

theorem drop_take_concat {wal : List ℕ} {k : ℕ} (b : ℕ) (hk : k < wal.length / 4) :
    ((wal ++ [b]).drop (4 * k)).take 4 = (wal.drop (4 * k)).take 4 := by
  rw [List.drop_append_of_le_length (by omega), List.take_append_of_le_length]
  rw [List.length_drop]
  omega

theorem Records.register {ed : ExtraDirtiedBufs} {wal : List ℕ} (h : Records ed wal)
    (hw : wal.length < 100) {b blocks : ℕ} (hb : b ∉ wal) (hread : b < blocks) :
    ∃ ed2, extraDirtiedAddWalReadBuffer blocks ed b = extraDirtiedAdd ed2 b (walPtr wal.length) ∧
      Records ed2 (wal ++ [b]) ∧ ∀ blocks ptrs, Arrays ed blocks ptrs → Arrays ed2 blocks ptrs := by
  obtain ⟨ed1, hopen, hsize, hlast, hlen, hchunk, hstates, harr⟩ := h.opened hw
  have hcl : (wal.drop (4 * (wal.length / 4))).length = wal.length % 4 := by
    rw [List.length_drop]
    omega
  have hnew := @genericXLogRegisterBuffer_new (wal.drop (4 * (wal.length / 4))) b
    (fun hm => hb (List.mem_of_mem_drop hm)) (by rw [hcl]; exact Nat.mod_lt _ (by decide))
  refine ⟨{ ed1 with
      state := ed1.state.set (wal.length / 4) (some (wal.drop (4 * (wal.length / 4)) ++ [b]))
      pagesInTheLastState := ed1.pagesInTheLastState + 1 }, ?_, ⟨by simpa using hlen, ?_, ?_, ?_⟩,
    fun blocks ptrs ha => ⟨(harr _ _ ha).1, (harr _ _ ha).2, (harr _ _ ha).3, (harr _ _ ha).4,
      (harr _ _ ha).5, (harr _ _ ha).6⟩⟩
  · have hlast' :
        ed1.state.getD (ed1.stateSize - 1) none = some (wal.drop (4 * (wal.length / 4))) := by
      rw [hsize, Nat.add_sub_cancel, List.getD_eq_getElem?_getD, hchunk]
      rfl
    rw [extraDirtiedAddWalReadBuffer, hopen, Outcome.bind_done, if_pos hread, registerLast, hlast']
    simp only
    rw [hnew, Outcome.bind_done, hsize, Nat.add_sub_cancel, hcl]
    rfl
  · simp only [List.length_append, List.length_singleton]
    omega
  · intro k hk
    simp only [hsize] at hk ⊢
    rcases Nat.lt_or_ge k (wal.length / 4) with hk' | hk'
    · rw [List.getElem?_set_ne (by omega), hstates k hk', drop_take_concat b hk']
    · obtain rfl : k = wal.length / 4 := by omega
      rw [List.getElem?_set_self (by rw [hlen]; omega), List.drop_append_of_le_length (by omega),
        List.take_of_length_le (by rw [List.length_append, hcl, List.length_singleton]; omega)]
  · simp only [hlast, List.length_append, List.length_singleton]
    split <;> omega

section Tracks
variable {ins : Insert} {own wal : List ℕ}

theorem pagePtrs_length (own wal : List ℕ) :
    (pagePtrs own wal).length = own.length + wal.length := by
  simp [pagePtrs]

theorem pagePtrs_own {own wal : List ℕ} {i : ℕ} (h : i < own.length) :
    (pagePtrs own wal)[i]? = some (some (ownPtr i)) := by
  simp [pagePtrs, List.getElem?_append_left, h]

theorem pagePtrs_wal {own wal : List ℕ} {j : ℕ} (h : j < wal.length) :
    (pagePtrs own wal)[own.length + j]? = some (some (walPtr j)) := by
  rw [pagePtrs, List.getElem?_append_right (by simp)]
  simp [h]

theorem Tracks.entries_eq (h : Tracks ins own wal) :
    entries ins.ed = (own ++ wal).zip (pagePtrs own wal) := by
  rw [entries, List.zip, List.take_zipWith, h.arrays.blocknos, h.arrays.pages]

theorem Tracks.get_eq_some (h : Tracks ins own wal) {ptr : PagePtr} :
    extraDirtiedGet ins.ed b = some ptr ↔
      ∃ i : ℕ, (own ++ wal)[i]? = some b ∧ (pagePtrs own wal)[i]? = some (some ptr) := by
  have hkeys : (((own ++ wal).zip (pagePtrs own wal)).map Prod.fst).Nodup := by
    rw [List.map_fst_zip (by rw [pagePtrs_length, List.length_append])]
    exact h.nodup
  rw [extraDirtiedGet, h.entries_eq, Option.bind_eq_some_iff]
  constructor
  · rintro ⟨e, he, hptr⟩
    obtain ⟨hmem, rfl⟩ := (InsertTuple.find?_key Prod.fst hkeys).mp he
    obtain ⟨i, hi⟩ := List.mem_iff_getElem?.mp hmem
    obtain ⟨hb, hp⟩ := List.getElem?_zip_eq_some.mp hi
    exact ⟨i, hb, hptr ▸ hp⟩
  · rintro ⟨i, hb, hp⟩
    refine ⟨(b, some ptr),
      (InsertTuple.find?_key Prod.fst hkeys).mpr ⟨List.mem_iff_getElem?.mpr ⟨i, ?_⟩, rfl⟩, rfl⟩
    exact List.getElem?_zip_eq_some.mpr ⟨hb, hp⟩

theorem Tracks.get_eq_none (h : Tracks ins own wal) :
    extraDirtiedGet ins.ed b = none ↔ b ∉ own ++ wal := by
  constructor
  · intro hnone hmem
    obtain ⟨i, hi⟩ := List.mem_iff_getElem?.mp hmem
    have hlt := (List.getElem?_eq_some_iff.mp hi).1
    rw [List.length_append] at hlt
    obtain ⟨ptr, hptr⟩ : ∃ ptr, (pagePtrs own wal)[i]? = some (some ptr) := by
      rcases Nat.lt_or_ge i own.length with hi' | hi'
      · exact ⟨_, pagePtrs_own hi'⟩
      · obtain ⟨j, rfl⟩ : ∃ j, i = own.length + j := ⟨i - own.length, by omega⟩
        exact ⟨_, pagePtrs_wal (by omega)⟩
    rw [h.get_eq_some.mpr ⟨i, hi, hptr⟩] at hnone
    cases hnone
  · intro hmem
    cases hget : extraDirtiedGet ins.ed b with
    | none => rfl
    | some ptr =>
      obtain ⟨i, hi, -⟩ := h.get_eq_some.mp hget
      exact absurd (List.mem_iff_getElem?.mpr ⟨i, hi⟩) hmem

theorem Tracks.pageBlock_own (h : Tracks ins own wal) (i : ℕ) :
    pageBlock ins (ownPtr i) = own[i]? := by
  simp [pageBlock, ownPtr, h.xlog_eq]

theorem Tracks.pageBlock_wal (h : Tracks ins own wal) {k slot : ℕ} (hslot : slot < 4) :
    pageBlock ins ⟨some k, slot⟩ = wal[4 * k + slot]? := by
  simp only [pageBlock]
  split
  · rename_i hk
    rw [List.getD_eq_getElem?_getD, h.records.states k hk]
    simp [hslot]
  · rename_i hk
    rw [h.records.stateSize_eq] at hk
    rw [List.getElem?_eq_none (by omega)]

theorem Tracks.pageBlock_wal_full (h : Tracks ins own wal) {k slot : ℕ} (hslot : 4 ≤ slot) :
    pageBlock ins ⟨some k, slot⟩ = none := by
  simp only [pageBlock]
  split
  · rename_i hk
    rw [List.getD_eq_getElem?_getD, h.records.states k hk]
    simp only [Option.getD_some, Option.bind_some, List.getElem?_eq_none_iff, List.length_take]
    omega
  · rfl

theorem Tracks.registered (h : Tracks ins own wal) (hown : own.length ≤ 2) : Registered ins where
  lookup := by
    intro b ptr hb
    rw [h.get_eq_some]
    constructor
    · rintro ⟨i, hi, hp⟩
      rcases Nat.lt_or_ge i own.length with hi' | hi'
      · rw [pagePtrs_own hi'] at hp
        cases hp
        rw [h.pageBlock_own, ← hi, List.getElem?_append_left hi']
      · obtain ⟨j, rfl⟩ : ∃ j, i = own.length + j := ⟨i - own.length, by omega⟩
        rw [List.getElem?_append_right hi', Nat.add_sub_cancel_left] at hi
        have hj := (List.getElem?_eq_some_iff.mp hi).1
        rw [pagePtrs_wal hj] at hp
        cases hp
        rw [walPtr, h.pageBlock_wal (Nat.mod_lt _ (by decide)), Nat.div_add_mod]
        exact hi
    · intro hptr
      obtain ⟨walState, slot⟩ := ptr
      cases walState with
      | none =>
        cases slot with
        | zero =>
          simp only [pageBlock, h.xlog_eq, List.getElem?_cons_zero, Option.some.injEq] at hptr
          exact absurd hptr.symm hb
        | succ i =>
          have hi : own[i]? = some b := (h.pageBlock_own i).symm.trans hptr
          have hlt := (List.getElem?_eq_some_iff.mp hi).1
          exact ⟨i, by rw [List.getElem?_append_left hlt, hi], pagePtrs_own hlt⟩
      | some k =>
        rcases Nat.lt_or_ge slot 4 with hslot | hslot
        · rw [h.pageBlock_wal hslot] at hptr
          have hlt := (List.getElem?_eq_some_iff.mp hptr).1
          refine ⟨own.length + (4 * k + slot), ?_, ?_⟩
          · rw [List.getElem?_append_right (by omega), Nat.add_sub_cancel_left]
            exact hptr
          · rw [pagePtrs_wal hlt, walPtr]
            simp only [Option.some.injEq, PagePtr.mk.injEq]
            omega
        · rw [h.pageBlock_wal_full hslot] at hptr
          cases hptr
  own_record := by
    rw [h.xlog_eq, List.length_cons]
    simp only [MAX_GENERIC_XLOG_PAGES]
    omega
  records := fun k hk => ⟨_, h.records.states k hk, List.length_take_le 4 _⟩

theorem Tracks.length_le (h : Tracks ins own wal) : own.length + wal.length ≤ 100 := by
  have hlen := congrArg List.length h.arrays.blocknos
  rw [List.length_take, h.arrays.blockno_length, List.length_append] at hlen
  omega

theorem pagePtrs_concat (own wal : List ℕ) (b : ℕ) :
    pagePtrs own (wal ++ [b]) = pagePtrs own wal ++ [some (walPtr wal.length)] := by
  simp [pagePtrs, List.range_succ]

theorem nodup_concat (h : bs.Nodup) (hb : b ∉ bs) : (bs ++ [b]).Nodup :=
  List.nodup_append.mpr ⟨h, by simp, fun c hc d hd => by
    rw [List.mem_singleton.mp hd]
    exact fun he => hb (he ▸ hc)⟩

theorem Tracks.retrieverMut_known (h : Tracks ins own wal) (hb : b ∈ own ++ wal) :
    retrieverMut ins b = .done ins := by
  unfold retrieverMut
  cases hget : extraDirtiedGet ins.ed b with
  | some ptr => rfl
  | none => exact absurd hb (h.get_eq_none.mp hget)

theorem Tracks.retrieverMut_new (h : Tracks ins own wal) (hb : b ∉ own ++ wal) (h0 : b ≠ 0)
    (hread : b < ins.blocks) (hlt : own.length + wal.length < 100) :
    ∃ ins', retrieverMut ins b = .done ins' ∧ Tracks ins' own (wal ++ [b]) ∧
      ins'.blocks = ins.blocks := by
  have hw : b ∉ wal := fun hm => hb (List.mem_append_right _ hm)
  obtain ⟨ed2, hadd, hrec, harr⟩ := h.records.register (by omega) hw hread
  obtain ⟨ed', hed', harr', hstate, hsize, hlast⟩ :=
    (harr _ _ h.arrays).add (by rw [List.length_append]; exact hlt) b (walPtr wal.length)
  refine ⟨{ ins with ed := ed' }, ?_, ?_, rfl⟩
  · rw [retrieverMut, h.get_eq_none.mpr hb]
    simp only
    rw [hadd, hed', Outcome.map_done]
  · refine ⟨?_, ⟨?_, ?_, ?_, ?_⟩, h.xlog_eq, ?_, ?_⟩
    · rw [pagePtrs_concat, ← List.append_assoc]
      exact harr'
    · rw [hstate]
      exact hrec.state_length
    · rw [hsize]
      exact hrec.stateSize_eq
    · rw [hstate, hsize]
      exact hrec.states
    · rw [hlast]
      exact hrec.last_state
    · rw [← List.append_assoc]
      exact nodup_concat h.nodup hb
    · rw [← List.append_assoc, List.mem_append, List.mem_singleton, not_or]
      exact ⟨h.no_header, h0.symm⟩

theorem Tracks.retrieverMut_past (h : Tracks ins own wal) (hown : 1 ≤ own.length)
    (hb : b ∉ own ++ wal) (hread : b < ins.blocks) (hge : 100 ≤ own.length + wal.length) :
    retrieverMut ins b = .fault .writePastBuffer := by
  have hle := h.length_le
  have hw : b ∉ wal := fun hm => hb (List.mem_append_right _ hm)
  obtain ⟨ed2, hadd, -, harr⟩ := h.records.register (by omega) hw hread
  rw [retrieverMut, h.get_eq_none.mpr hb]
  simp only
  rw [hadd, (harr _ _ h.arrays).add_past (by rw [List.length_append]; exact hge)]
  rfl

theorem card_blocks (h : bs.Nodup) (more : List ℕ) :
    bs.length ≤ (bs ++ more).toFinset.card := by
  rw [← List.toFinset_card_of_nodup h]
  exact Finset.card_le_card (by simp)

theorem card_blocks_new (h : bs.Nodup) (hb : b ∉ bs) (more : List ℕ) :
    bs.length < (bs ++ b :: more).toFinset.card := by
  have hcard := card_blocks (nodup_concat h hb) more
  rw [List.length_append, List.append_assoc] at hcard
  exact hcard

theorem requests_outcome (h : Tracks ins own wal) (hown : 1 ≤ own.length)
    (hreq : ∀ b ∈ requests, b ≠ 0 ∧ b < ins.blocks) :
    if (own ++ wal ++ requests).toFinset.card ≤ 100 then
      ∃ ins' wal', foldSteps retrieverMut requests ins = .done ins' ∧ Tracks ins' own wal'
    else foldSteps retrieverMut requests ins = .fault .writePastBuffer := by
  induction requests generalizing ins wal with
  | nil =>
    rw [if_pos]
    · exact ⟨ins, wal, rfl, h⟩
    · rw [List.append_nil, List.toFinset_card_of_nodup h.nodup, List.length_append]
      exact h.length_le
  | cons b requests ih =>
    obtain ⟨h0, hread⟩ := hreq b List.mem_cons_self
    have hrest : ∀ c ∈ requests, c ≠ 0 ∧ c < ins.blocks :=
      fun c hc => hreq c (List.mem_cons_of_mem _ hc)
    rw [foldSteps]
    by_cases hb : b ∈ own ++ wal
    · have hset : (own ++ wal ++ b :: requests).toFinset = (own ++ wal ++ requests).toFinset := by
        ext c
        simp only [List.mem_toFinset, List.mem_append, List.mem_cons]
        rw [List.mem_append] at hb
        constructor
        · rintro (hc | rfl | hc)
          · exact .inl hc
          · exact .inl hb
          · exact .inr hc
        · rintro (hc | hc)
          · exact .inl hc
          · exact .inr (.inr hc)
      rw [h.retrieverMut_known hb, Outcome.bind_done, hset]
      exact ih h hrest
    · rcases Nat.lt_or_ge (own.length + wal.length) 100 with hlt | hge
      · obtain ⟨ins', hins, htracks, hblocks⟩ := h.retrieverMut_new hb h0 hread hlt
        rw [hins, Outcome.bind_done,
          show own ++ wal ++ b :: requests = own ++ (wal ++ [b]) ++ requests by simp]
        exact ih htracks fun c hc => hblocks ▸ hrest c hc
      · rw [h.retrieverMut_past hown hb hread hge, Outcome.bind_fault, if_neg]
        have := card_blocks_new h.nodup hb requests
        rw [List.length_append] at this
        omega

end Tracks

def prepared (rel : IndexBlocks) (fits : Bool) : List ℕ :=
  match rel.lastDataBlock with
  | none => [rel.count]
  | some last => if fits then [last] else [last, rel.count]

theorem tracks_start (rel : IndexBlocks) : Tracks (startInsert rel) [] [] where
  arrays := ⟨List.length_replicate, List.length_replicate, List.length_replicate, rfl, rfl, rfl⟩
  records := ⟨List.length_replicate, rfl, fun k hk => absurd hk (Nat.not_lt_zero k), rfl⟩
  xlog_eq := rfl
  nodup := List.nodup_nil
  no_header := List.not_mem_nil

theorem pagePtrs_own_concat (own : List ℕ) (b : ℕ) :
    pagePtrs (own ++ [b]) [] = pagePtrs own [] ++ [some (ownPtr own.length)] := by
  simp [pagePtrs, List.range_succ]

theorem Tracks.registerOwn {ins : Insert} {own : List ℕ} (h : Tracks ins own [])
    (hown : own.length ≤ 1) (hb : b ∉ own) (h0 : b ≠ 0) :
    ∃ ins', registerOwn b ins = .done ins' ∧ Tracks ins' (own ++ [b]) [] ∧
      ins'.blocks = ins.blocks := by
  have hmem : b ∉ (0 :: own) := by simp [hb, h0]
  have hreg := genericXLogRegisterBuffer_new hmem (by
    simp only [List.length_cons, MAX_GENERIC_XLOG_PAGES]
    omega)
  obtain ⟨ed', hed', harr', hstate, hsize, hlast⟩ :=
    h.arrays.add (by simp; omega) b (ownPtr own.length)
  refine ⟨{ ins with xlog := (0 :: own) ++ [b], ed := ed' }, ?_,
    ⟨?_, ⟨?_, ?_, ?_, ?_⟩, rfl, ?_, ?_⟩, rfl⟩
  · rw [ExtraDirtied.registerOwn, h.xlog_eq, hreg, Outcome.bind_done]
    simp only
    rw [show (⟨none, (0 :: own).length⟩ : PagePtr) = ownPtr own.length by simp [ownPtr], hed',
      Outcome.map_done]
  · rw [List.append_nil, pagePtrs_own_concat]
    simpa using harr'
  · rw [hstate]
    exact h.records.state_length
  · rw [hsize]
    exact h.records.stateSize_eq
  · rw [hstate, hsize]
    exact h.records.states
  · rw [hlast]
    exact h.records.last_state
  · rw [List.append_nil]
    exact nodup_concat (by simpa using h.nodup) hb
  · have := h.no_header
    simp only [List.append_nil, List.mem_append, List.mem_singleton, not_or] at this ⊢
    exact ⟨this, h0.symm⟩

theorem Tracks.registerNew {ins : Insert} {own : List ℕ} (h : Tracks ins own [])
    (hown : own.length ≤ 1) (hb : ins.blocks ∉ own) (h0 : ins.blocks ≠ 0)
    (hext : ins.blocks < InvalidBlockNumber) :
    ∃ ins', registerNew ins = .done ins' ∧ Tracks ins' (own ++ [ins.blocks]) [] ∧
      ins'.blocks = ins.blocks + 1 := by
  have hgrown : Tracks { ins with blocks := ins.blocks + 1 } own [] :=
    ⟨h.arrays, h.records, h.xlog_eq, h.nodup, h.no_header⟩
  rw [ExtraDirtied.registerNew, if_pos hext]
  exact hgrown.registerOwn hown hb h0

theorem prepare_tracks (rel : IndexBlocks) (fits : Bool) :
    ∃ ins, prepareIndexTuple rel.lastDataBlock fits (startInsert rel) = .done ins ∧
      Tracks ins (prepared rel fits) [] ∧
      ∀ b, b < rel.count ∨ b ∈ prepared rel fits → b < ins.blocks := by
  have hstart := tracks_start rel
  have hpos := rel.header
  unfold prepareIndexTuple prepared
  cases hl : rel.lastDataBlock with
  | none =>
    obtain ⟨ins, hins, htracks, hblocks⟩ := hstart.registerNew (Nat.zero_le _) List.not_mem_nil
      (show rel.count ≠ 0 by omega) rel.extensible
    refine ⟨ins, hins, htracks, fun b hb => ?_⟩
    rw [hblocks]
    simp only [startInsert, List.mem_singleton] at hb ⊢
    omega
  | some last =>
    obtain ⟨h1, hlt⟩ := rel.last_data last hl
    obtain ⟨ins, hins, htracks, hblocks⟩ :=
      hstart.registerOwn (Nat.zero_le _) (b := last) List.not_mem_nil
      (by omega)
    have hfirst : registerLastBlock last (startInsert rel) = .done ins := by
      rw [registerLastBlock, hstart.get_eq_none.mpr List.not_mem_nil]
      simp only
      rw [if_pos (show last < (startInsert rel).blocks from hlt), hins]
    simp only
    rw [hfirst, Outcome.bind_done]
    cases fits with
    | true =>
      refine ⟨ins, rfl, htracks, fun b hb => ?_⟩
      rw [hblocks]
      simp only [startInsert, if_true, List.mem_singleton] at hb ⊢
      omega
    | false =>
      have hcount : ins.blocks = rel.count := hblocks
      obtain ⟨ins', hins', htracks', hblocks'⟩ := htracks.registerNew (le_refl 1)
        (by rw [hcount]; simp; omega) (by omega) (by rw [hcount]; exact rel.extensible)
      rw [hcount] at htracks'
      refine ⟨ins', hins', htracks', fun b hb => ?_⟩
      rw [hblocks', hcount]
      simp only [Bool.false_eq_true, if_false, List.mem_cons, List.not_mem_nil, or_false] at hb
      omega

theorem prepared_length (rel : IndexBlocks) (fits : Bool) :
    1 ≤ (prepared rel fits).length ∧ (prepared rel fits).length ≤ 2 := by
  unfold prepared
  split
  · simp
  · split <;> simp

theorem insertRun_done (rel : IndexBlocks) (fits : Bool)
    (hreq : ∀ b ∈ requests, b ≠ 0 ∧ (b < rel.count ∨ b ∈ prepared rel fits))
    (hcard : (prepared rel fits ++ requests).toFinset.card ≤ 100) :
    ∃ ins, insertRun rel fits requests = .done ins ∧ Registered ins := by
  obtain ⟨ins, hprep, htracks, hblocks⟩ := prepare_tracks rel fits
  obtain ⟨hone, htwo⟩ := prepared_length rel fits
  have hrun := requests_outcome htracks hone fun b hb => ⟨(hreq b hb).1, hblocks b (hreq b hb).2⟩
  rw [List.append_nil, if_pos hcard] at hrun
  obtain ⟨ins', wal, hdone, ht⟩ := hrun
  refine ⟨ins', ?_, ht.registered htwo⟩
  rw [insertRun, hprep, Outcome.bind_done, hdone]

theorem insertRun_past (rel : IndexBlocks) (fits : Bool)
    (hreq : ∀ b ∈ requests, b ≠ 0 ∧ (b < rel.count ∨ b ∈ prepared rel fits))
    (hcard : ¬(prepared rel fits ++ requests).toFinset.card ≤ 100) :
    insertRun rel fits requests = .fault .writePastBuffer := by
  obtain ⟨ins, hprep, htracks, hblocks⟩ := prepare_tracks rel fits
  have hrun := requests_outcome htracks (prepared_length rel fits).1
    fun b hb => ⟨(hreq b hb).1, hblocks b (hreq b hb).2⟩
  rw [List.append_nil, if_neg hcard] at hrun
  rw [insertRun, hprep, Outcome.bind_done, hrun]

def WithinArrays (outcome : Outcome Fault Insert) : Prop :=
  outcome ≠ .fault .writePastBuffer ∧ ∀ ins, outcome = .done ins → Registered ins

/-- An insert stays within its arrays if and only if it dirties at most 100
    different data blocks, those that take the new tuple included. -/
theorem insertRun_within_iff (rel : IndexBlocks) (fits : Bool) (requests : List ℕ)
    (hreq : ∀ b ∈ requests, b ≠ 0 ∧ (b < rel.count ∨ b ∈ prepared rel fits)) :
    WithinArrays (insertRun rel fits requests) ↔
      (prepared rel fits ++ requests).toFinset.card ≤ 100 := by
  by_cases hcard : (prepared rel fits ++ requests).toFinset.card ≤ 100
  · obtain ⟨ins, hdone, hreg⟩ := insertRun_done rel fits hreq hcard
    refine iff_of_true ⟨by rw [hdone]; simp, fun ins' h' => ?_⟩ hcard
    rw [hdone] at h'
    cases h'
    exact hreg
  · exact iff_of_false (fun h => h.1 (insertRun_past rel fits hreq hcard)) hcard

def manyBlocks : IndexBlocks := ⟨102, some 1, by decide, by simp, by decide⟩

theorem manyBlocks_requests {n : ℕ} (hn : n ≤ 100) :
    ∀ b ∈ List.range' 2 n, b ≠ 0 ∧ (b < manyBlocks.count ∨ b ∈ prepared manyBlocks true) := by
  intro b hb
  rw [List.mem_range'_1] at hb
  exact ⟨by omega, .inl (by simp only [manyBlocks]; omega)⟩

theorem manyBlocks_card (n : ℕ) :
    (prepared manyBlocks true ++ List.range' 2 n).toFinset.card = n + 1 := by
  have hrange : prepared manyBlocks true ++ List.range' 2 n = List.range' 1 (n + 1) := rfl
  rw [hrange, List.toFinset_card_of_nodup List.nodup_range', List.length_range']

theorem insertRun_within_hundred : WithinArrays (insertRun manyBlocks true (List.range' 2 99)) :=
  (insertRun_within_iff manyBlocks true _ (manyBlocks_requests (by decide))).mpr
    (manyBlocks_card 99).le

theorem insertRun_past_arrays :
    (∀ b ∈ List.range' 2 100, 1 ≤ b ∧ b < manyBlocks.count) ∧
      insertRun manyBlocks true (List.range' 2 100) = .fault .writePastBuffer := by
  refine ⟨fun b hb => ?_, ?_⟩
  · rw [List.mem_range'_1] at hb
    simp only [manyBlocks]
    omega
  · apply insertRun_past manyBlocks true (manyBlocks_requests le_rfl)
    rw [manyBlocks_card]
    decide

/-- The state of `InsertTuple` for the same registrations. -/
structure Lists (ed : InsertTuple.ExtraDirtiedBufs) (ins : Insert) (blocks : List ℕ) : Prop where
  bufs : ed.bufs.map (·.blockno) = blocks
  stateSize_eq : ed.stateSize = ins.ed.stateSize
  last_state : ed.pagesInTheLastState = ins.ed.pagesInTheLastState

variable {ed ed1 : InsertTuple.ExtraDirtiedBufs} {ins : Insert} {own wal : List ℕ} {b : ℕ}

theorem Lists.get_eq_none {blocks : List ℕ} (h : Lists ed ins blocks) :
    InsertTuple.extraDirtiedGet ed b = none ↔ b ∉ blocks := by
  simp [InsertTuple.extraDirtiedGet, ← h.bufs]

theorem openWalState_listed (h : Tracks ins own wal) (hl : Lists ed ins (own ++ wal))
    (hopen : InsertTuple.openWalState ed = .done ed1) :
    ed1.bufs = ed.bufs ∧ ed1.stateSize = wal.length / 4 + 1 ∧
      ed1.pagesInTheLastState = wal.length % 4 := by
  have hsize := hl.stateSize_eq.trans h.records.stateSize_eq
  have hlast := hl.last_state.trans h.records.last_state
  rw [InsertTuple.openWalState, hlast] at hopen
  by_cases hr : wal.length % 4 = 0
  · rw [if_pos (by rw [if_pos hr]; rfl)] at hopen
    split at hopen
    · cases hopen
      exact ⟨rfl, by simp only; omega, hr.symm⟩
    · cases hopen
  · rw [if_neg (by rw [if_neg hr, MAX_GENERIC_XLOG_PAGES]; omega)] at hopen
    cases hopen
    exact ⟨rfl, by omega, by rw [hlast, if_neg hr]⟩

/-- Where `InsertTuple` registers a page, assertions included, so do the arrays. -/
theorem registerMut_listed {st : InsertTuple.InsertState} (h : Tracks ins own wal)
    (hl : Lists st.ed ins (own ++ wal)) (hblocks : ins.blocks = st.pages.length + 1)
    (hmut : InsertTuple.registerMut b st = .done ed1) :
    ∃ ins' wal', retrieverMut ins b = .done ins' ∧ Tracks ins' own wal' ∧
      Lists ed1 ins' (own ++ wal') := by
  by_cases hb : b ∈ own ++ wal
  · refine ⟨ins, wal, h.retrieverMut_known hb, h, ?_⟩
    unfold InsertTuple.registerMut at hmut
    cases hget : InsertTuple.extraDirtiedGet st.ed b with
    | none => exact absurd hb (hl.get_eq_none.mp hget)
    | some page =>
      rw [hget] at hmut
      cases hmut
      exact hl
  · rw [InsertTuple.registerMut, hl.get_eq_none.mpr hb] at hmut
    simp only at hmut
    obtain ⟨ed2, hopen, hadd⟩ := Outcome.bind_eq_done.mp hmut
    split at hadd
    · cases hadd
    · rename_i hrange
      rw [InsertTuple.extraDirtiedAdd] at hadd
      split at hadd
      · rename_i hroom
        cases hadd
        obtain ⟨hbufs, hsize, hlast⟩ := openWalState_listed h hl hopen
        have hlen : st.ed.bufs.length = own.length + wal.length := by
          rw [← List.length_append, ← hl.bufs, List.length_map]
        simp only [hbufs, LDB_HNSW_INSERT_MAX_EXTRA_DIRTIED_BUFS] at hroom
        obtain ⟨ins', hins, ht, -⟩ := h.retrieverMut_new hb (by omega) (by omega) (by omega)
        refine ⟨ins', wal ++ [b], hins, ht, ?_, ?_, ?_⟩
        · rw [← List.append_assoc, ← hl.bufs]
          simp [hbufs]
        · rw [ht.records.stateSize_eq, List.length_append, List.length_singleton]
          simp only [hsize]
          omega
        · rw [ht.records.last_state, List.length_append, List.length_singleton]
          simp only [hlast]
          split <;> omega
      · cases hadd

end Lantern.ExtraDirtied
