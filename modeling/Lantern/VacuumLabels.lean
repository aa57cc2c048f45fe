import Lantern.IndexScan
import Lantern.StoredLabels
import Lantern.VacuumSweep

set_option autoImplicit false

/-!
# What a bulk deletion changes

The sweep resets the label of every live entry that the callback condemns, and nothing
else. A label is the image of a heap tid, the invalid label is the image of no valid
one, and a scan passes over entries that have it.
-/
namespace Lantern.VacuumLabels
open FuelLoop ByteStrings NodeLayout PageLayout IndexRelation PageChain InsertTuple BulkDelete
  SystemRuns IndexRuns
open IndexScan WalReplay StoredLabels VacuumSweep

/-- A pointer to a heap tuple: the fields have their widths, and offsets start at 1. -/
structure HeapTid (tid : ItemPointerData) : Prop where
  block_lt : tid.block < 2 ^ 32
  posid_pos : 1 ≤ tid.posid
  posid_lt : tid.posid < 2 ^ 16

theorem label2ItemPointer_eq (label : ℕ) :
    label2ItemPointer label = itemPointerOfBytes (leBytes 6 label) := by
  have hslice : ∀ off, off + 2 ≤ 6 →
      slice off 2 (leBytes 8 label) = slice off 2 (leBytes 6 label) := by
    intro off hoff
    rw [← @take_leBytes 6 8 (by decide) label, slice, slice, List.drop_take, List.take_take,
      min_eq_left (by omega)]
  rw [label2ItemPointer, itemPointerOfBytes, itemPointerOfBytes, hslice 0 (by decide),
    hslice 2 (by decide), hslice 4 (by decide)]

theorem label2ItemPointer_itemPointer2Label {tid : ItemPointerData} (h : HeapTid tid) :
    label2ItemPointer (itemPointer2Label tid) = tid := by
  have hbytes := leBytes_leNat (itemPointerBytes tid)
  rw [itemPointerBytes_length] at hbytes
  rw [label2ItemPointer_eq, itemPointer2Label, hbytes,
    itemPointerOfBytes_bytes tid h.block_lt h.posid_lt]

theorem label2ItemPointer_invalid : label2ItemPointer INVALID_ELEMENT_LABEL = ⟨0, 0⟩ := by decide

theorem itemPointer2Label_ne_invalid {tid : ItemPointerData} (h : HeapTid tid) :
    itemPointer2Label tid ≠ INVALID_ELEMENT_LABEL := by
  intro hlabel
  have htid := label2ItemPointer_itemPointer2Label h
  rw [hlabel, label2ItemPointer_invalid] at htid
  have hpos := h.posid_pos
  rw [← htid] at hpos
  exact absurd hpos (by decide)

variable {r : Rel}

section Sweep
variable {callback : ItemPointerData → Bool}

theorem bulkDeleteBlocks_append (pre mid post : List Page) (removed : ℕ) :
    bulkDeleteBlocks callback mid.length (1 + pre.length) (pre ++ (mid ++ post)) removed =
      ⟨pre ++ (mid.map (deleteOnPage callback) ++ post),
        removed + ((mid.flatMap (·.items)).filter (condemned callback)).length, none⟩ := by
  induction mid generalizing pre removed with
  | nil => rfl
  | cons p mid ih =>
    have hget : getPage (pre ++ (p :: mid ++ post)) (1 + pre.length) = p :=
      getPage_at pre (mid ++ post) p
    have hset : setPage (pre ++ (p :: mid ++ post)) (1 + pre.length) (deleteOnPage callback p) =
        (pre ++ [deleteOnPage callback p]) ++ (mid ++ post) := by
      rw [List.cons_append, setPage_at, List.append_assoc]
      rfl
    have hnext : 1 + pre.length + 1 = 1 + (pre ++ [deleteOnPage callback p]).length := by
      rw [List.length_append, List.length_singleton]
      omega
    rw [List.length_cons, bulkDeleteBlocks, if_neg (by simp; omega)]
    simp only [hget]
    rw [hset, hnext, ih]
    simp only [List.map_cons, List.flatMap_cons, List.filter_append, List.length_append,
      List.append_assoc, List.nil_append, List.cons_append, BulkDeleteState.mk.injEq,
      true_and, and_true]
    omega

theorem items_behind_last (hr : IndexChain r) (hl : r.header.lastDataBlock ≠ InvalidBlockNumber) :
    ∀ p ∈ r.pages.drop r.header.lastDataBlock, p.items = [] := by
  intro p hp
  obtain ⟨i, hi⟩ := List.mem_iff_getElem?.mp hp
  rw [List.getElem?_drop] at hi
  have hget : getPage r.pages (r.header.lastDataBlock + i + 1) = p := by
    rw [getPage, List.getD_eq_getElem?_getD, hi, Option.getD_some]
  by_contra hne
  obtain ⟨t, ht⟩ := List.exists_mem_of_ne_nil _ hne
  obtain ⟨posid, htuple⟩ := tupleAt_of_mem (hget.symm ▸ ht)
  have hle := hr.chained.block_le hl htuple
  simp only at hle
  omega

theorem bulkDeleteBlocks_index (hr : IndexChain r) (hpos : 0 < r.header.numVectors) (removed : ℕ) :
    bulkDeleteBlocks callback r.header.lastDataBlock 1 r.pages removed =
      ⟨r.pages.map (deleteOnPage callback),
        removed + ((r.pages.flatMap (·.items)).filter (condemned callback)).length, none⟩ := by
  have hl := (lastDataBlock_valid_iff hr).mpr hpos
  obtain ⟨-, -, -, hle, -⟩ := hr.chained.lastPage hl
  have hbehind := items_behind_last hr hl
  generalize r.header.lastDataBlock = last at hle hbehind ⊢
  have hsplit :=
    @bulkDeleteBlocks_append callback [] (r.pages.take last) (r.pages.drop last) removed
  rw [List.nil_append, List.take_append_drop, List.length_take, min_eq_left hle] at hsplit
  have hkept : (r.pages.drop last).map (deleteOnPage callback) = r.pages.drop last := by
    conv_rhs => rw [← List.map_id (r.pages.drop last)]
    refine List.map_congr_left fun p hp => deleteOnPage_of_none ?_
    rw [hbehind p hp]
    rfl
  have hitems : (r.pages.drop last).flatMap (·.items) = [] := List.flatMap_eq_nil_iff.mpr hbehind
  have hpages : (r.pages.take last).map (deleteOnPage callback) ++ r.pages.drop last =
      r.pages.map (deleteOnPage callback) := by
    conv_lhs => rw [← hkept]
    rw [← List.map_append, List.take_append_drop]
  have hentries : (r.pages.take last).flatMap (·.items) = r.pages.flatMap (·.items) := by
    conv_rhs => rw [← List.take_append_drop last r.pages, List.flatMap_append, hitems,
      List.append_nil]
  rw [hpages, hentries, List.nil_append] at hsplit
  exact hsplit

theorem getPage_map_delete (pages : List Page) (b : ℕ) :
    getPage (pages.map (deleteOnPage callback)) b = deleteOnPage callback (getPage pages b) := by
  cases b with
  | zero => rfl
  | succ b =>
    simp only [getPage, List.getD_eq_getElem?_getD, List.getElem?_map]
    cases pages[b]? with
    | none => rfl
    | some p => rfl

theorem tupleAt_map_delete (pages : List Page) (slot : ItemPointerData) :
    tupleAt (pages.map (deleteOnPage callback)) slot =
      (tupleAt pages slot).map (relabel callback) := by
  unfold tupleAt
  rw [getPage_map_delete]
  split_ifs
  · rfl
  · exact List.getElem?_map

def heapTid (t : HnswIndexTuple) : ItemPointerData := label2ItemPointer (labelFromNode t.node)

def Live (t : HnswIndexTuple) : Prop := labelFromNode t.node ≠ INVALID_ELEMENT_LABEL

instance (t : HnswIndexTuple) : Decidable (Live t) := inferInstanceAs (Decidable (_ ≠ _))

def newlyInvalid (callback : ItemPointerData → Bool) (pages : List Page) : List HnswIndexTuple :=
  (pages.flatMap (·.items)).filter fun t => decide (Live t) && callback (heapTid t)

/-- An entry before and after: the label is the only thing that may change, and it
    changes for a live entry whose tid satisfies the predicate. -/
structure EntryDeleted (callback : ItemPointerData → Bool) (t t' : HnswIndexTuple) : Prop where
  seqid_eq : t'.seqid = t.seqid
  size_eq : t'.size = t.size
  length_eq : t'.node.length = t.node.length
  tail_eq : ∀ i ≥ 8, t'.node[i]? = t.node[i]?
  invalidated : Live t → callback (heapTid t) = true → labelFromNode t'.node = INVALID_ELEMENT_LABEL
  others : ¬ (Live t ∧ callback (heapTid t) = true) → t' = t

/-- Pages before and after: the same blocks, the same data around the items, the same
    slots in use, and entries as above. -/
structure DeletesExactly (callback : ItemPointerData → Bool) (pages pages' : List Page) : Prop where
  length_eq : pages'.length = pages.length
  pdSpecial_eq : ∀ b, (getPage pages' b).pdSpecial = (getPage pages b).pdSpecial
  special_eq : ∀ b, (getPage pages' b).special = (getPage pages b).special
  slots : ∀ slot, (tupleAt pages' slot).isSome = (tupleAt pages slot).isSome
  entries : ∀ slot t t', tupleAt pages slot = some t → tupleAt pages' slot = some t' →
    EntryDeleted callback t t'

theorem condemned_iff (hinvalid : callback ⟨0, 0⟩ = false) (t : HnswIndexTuple) :
    condemned callback t = true ↔ Live t ∧ callback (heapTid t) = true := by
  refine ⟨fun h => ⟨fun hdead => ?_, h⟩, fun h => h.2⟩
  rw [condemned, hdead, label2ItemPointer_invalid, hinvalid] at h
  cases h

theorem filter_condemned (hinvalid : callback ⟨0, 0⟩ = false) (pages : List Page) :
    (pages.flatMap (·.items)).filter (condemned callback) = newlyInvalid callback pages := by
  refine List.filter_congr fun t _ => ?_
  rw [Bool.eq_iff_iff, condemned_iff hinvalid, Bool.and_eq_true, decide_eq_true_eq]

theorem relabel_entryDeleted (hinvalid : callback ⟨0, 0⟩ = false) {t : HnswIndexTuple}
    (hhead : nodeHeadBytes ≤ t.node.length) : EntryDeleted callback t (relabel callback t) := by
  have hcondemned := condemned_iff hinvalid t
  have hlen := relabel_length callback hhead
  by_cases hc : condemned callback t = true
  · have hrelabel : relabel callback t = { t with node := resetNodeLabel t.node } := if_pos hc
    rw [hrelabel] at hlen ⊢
    refine ⟨rfl, rfl, hlen, fun i hi => ?_, fun _ _ => resetNodeLabel_label t.node,
      fun h => absurd (hcondemned.mp hc) h⟩
    rw [nodeHeadBytes] at hhead
    change (patch 0 (leBytes 8 INVALID_ELEMENT_LABEL) t.node)[i]? = _
    rw [patch_getElem? (by rw [leBytes_length]; omega), leBytes_length, if_neg (by omega)]
  · have hrelabel : relabel callback t = t := if_neg hc
    rw [hrelabel]
    exact ⟨rfl, rfl, rfl, fun _ _ => rfl, fun hl hcb =>
      absurd (hcondemned.mpr ⟨hl, hcb⟩) hc, fun _ => rfl⟩

theorem deletesExactly_map (hinvalid : callback ⟨0, 0⟩ = false) {pages : List Page}
    (hhead : Headed pages) :
    DeletesExactly callback pages (pages.map (deleteOnPage callback)) where
  length_eq := List.length_map _
  pdSpecial_eq := fun b => by rw [getPage_map_delete]; rfl
  special_eq := fun b => by rw [getPage_map_delete]; rfl
  slots := fun slot => by rw [tupleAt_map_delete, Option.isSome_map]
  entries := fun slot t t' ht ht' => by
    rw [tupleAt_map_delete, ht] at ht'
    obtain rfl := Option.some.inj ht'
    exact relabel_entryDeleted hinvalid (hhead slot t ht)

theorem relabel_not_condemned (hinvalid : callback ⟨0, 0⟩ = false) (t : HnswIndexTuple) :
    condemned callback (relabel callback t) = false := by
  by_cases hc : condemned callback t = true
  · have hrelabel : relabel callback t = { t with node := resetNodeLabel t.node } := if_pos hc
    rw [hrelabel, condemned, resetNodeLabel_label, label2ItemPointer_invalid, hinvalid]
  · have hrelabel : relabel callback t = t := if_neg hc
    rw [hrelabel]
    simpa using hc

theorem delete_twice (hinvalid : callback ⟨0, 0⟩ = false) (p : Page) :
    (deleteOnPage callback p).items.any (condemned callback) = false := by
  rw [List.any_eq_false]
  intro t ht
  obtain ⟨u, -, rfl⟩ := List.mem_map.mp ht
  exact Bool.eq_false_iff.mp (relabel_not_condemned hinvalid u)

end Sweep

inductive Emits {Query σ : Type} (us : Usearch Query σ) (initK : ℕ) (orderBy : OrderBy Query) :
    HnswScanState σ → ItemPointerData → Prop where
  | now {st st' : HnswScanState σ} {tid : ItemPointerData}
      (h : amgettuple us initK orderBy st = .done (some tid, st')) : Emits us initK orderBy st tid
  | later {st st' : HnswScanState σ} {result : Option ItemPointerData} {tid : ItemPointerData}
      (h : amgettuple us initK orderBy st = .done (result,
        st')) (hs : Emits us initK orderBy st' tid) :
      Emits us initK orderBy st tid

/-- Searches report nodes with the label that the index has for them at some time
    from the given state on. -/
def ReadsFrom {Query σ : Type} (us : Usearch Query σ) (r : Rel) : Prop :=
  ∀ s q k streaming, ∀ e ∈ (us.searchEf s q k streaming).1, ∃ r' t, Reachable (indexesAfter r) r' ∧
    tupleAt r'.pages e.slot = some t ∧ e.label = labelFromNode t.node

section Scan
variable {Query σ : Type} {us : Usearch Query σ} {initK : ℕ} {orderBy : OrderBy Query}
  {good : ℕ → Prop}

def BatchFrom (good : ℕ → Prop) (st : HnswScanState σ) : Prop := ∀ label ∈ st.labels, good label

variable {result : Option ItemPointerData} {st st' : HnswScanState σ}

theorem emitLoop_from {n : ℕ} (hst : BatchFrom good st) (h : emitLoop n st = (result, st')) :
    BatchFrom good st' ∧ ∀ tid, result = some tid → ∃ label, good label ∧
      label ≠ INVALID_ELEMENT_LABEL ∧
      tid = label2ItemPointer label := by
  induction n generalizing st with
  | zero =>
    cases h
    exact ⟨hst, fun _ h => (by cases h)⟩
  | succ n ih =>
    rw [emitLoop] at h
    split_ifs at h with hlabel
    · have hskip : BatchFrom good { st with current := st.current + 1 } := hst
      exact ih hskip h
    · cases h
      refine ⟨hst, fun tid htid => ⟨_, hst _ ?_, hlabel, (Option.some.inj htid).symm⟩⟩
      rw [List.getD_eq_getElem?_getD] at hlabel ⊢
      cases hget : st.labels[st.current]? with
      | none =>
        rw [hget] at hlabel
        exact absurd rfl hlabel
      | some label => exact List.mem_of_getElem? hget

theorem loadBatch_from
    (hus : ∀ s q k streaming, ∀ e ∈ (us.searchEf s q k streaming).1, good e.label) (q : Query)
    (k : ℕ) (streaming : Bool) (st : HnswScanState σ) :
    BatchFrom good (loadBatch us q k streaming st) := by
  intro label hlabel
  obtain ⟨e, he, rfl⟩ := List.mem_map.mp hlabel
  exact hus _ q k streaming e he

theorem fetch_from (hus : ∀ s q k streaming, ∀ e ∈ (us.searchEf s q k streaming).1, good e.label)
    (hst : BatchFrom good st) (h : fetch us orderBy st = .done (result, st')) :
    BatchFrom good st' ∧ ∀ tid, result = some tid → ∃ label, good label ∧
      label ≠ INVALID_ELEMENT_LABEL ∧
      tid = label2ItemPointer label := by
  unfold fetch at h
  split_ifs at h
  · cases h
    exact ⟨hst, fun _ h => (by cases h)⟩
  · cases h
    exact ⟨hst, fun _ h => (by cases h)⟩
  · cases orderBy with
    | missing => cases h
    | null => cases h
    | value q => exact emitLoop_from (loadBatch_from hus q _ true st) (Outcome.done.inj h)
  · exact emitLoop_from hst (Outcome.done.inj h)

theorem amgettuple_from
    (hus : ∀ s q k streaming, ∀ e ∈ (us.searchEf s q k streaming).1, good e.label)
    (hst : BatchFrom good st) (h : amgettuple us initK orderBy st = .done (result, st')) :
    BatchFrom good st' ∧ ∀ tid, result = some tid → ∃ label, good label ∧
      label ≠ INVALID_ELEMENT_LABEL ∧
      tid = label2ItemPointer label := by
  unfold amgettuple at h
  split_ifs at h
  · cases orderBy with
    | missing => cases h
    | null =>
      cases h
      exact ⟨hst, fun _ h => (by cases h)⟩
    | value q => exact fetch_from hus (loadBatch_from hus q initK false st) h
  · exact fetch_from hus hst h

theorem emits_from (hus : ∀ s q k streaming, ∀ e ∈ (us.searchEf s q k streaming).1, good e.label)
    {tid : ItemPointerData} (hst : BatchFrom good st) (h : Emits us initK orderBy st tid) :
    ∃ label, good label ∧ label ≠ INVALID_ELEMENT_LABEL ∧ tid = label2ItemPointer label := by
  induction h with
  | now h => exact (amgettuple_from hus hst h).2 _ rfl
  | later h hs ih => exact ih (amgettuple_from hus hst h).1

end Scan

theorem DeletesExactly.entry {callback : ItemPointerData → Bool} {pages pages' : List Page}
    (h : DeletesExactly callback pages pages') {slot : ItemPointerData} {t : HnswIndexTuple}
    (ht : tupleAt pages slot = some t) :
    ∃ t', tupleAt pages' slot = some t' ∧ EntryDeleted callback t t' := by
  have hsome := h.slots slot
  rw [ht, Option.isSome_some] at hsome
  obtain ⟨t', ht'⟩ := Option.isSome_iff_exists.mp hsome
  exact ⟨t', ht', h.entries slot t t' ht ht'⟩

theorem emits_live {callback : ItemPointerData → Bool} {r' : Rel} (hr' : IndexChain r')
    (hhead : Headed r'.pages) (hdel : DeletesExactly callback r.pages r'.pages) {Query σ : Type}
    {us : Usearch Query σ} (hus : ReadsFrom us r') {initK : ℕ} {orderBy : OrderBy Query} {s : σ}
    {tid : ItemPointerData} (h : Emits us initK orderBy (ambeginscan s) tid) :
    ∃ slot r'' t, Reachable (indexesAfter r') r'' ∧ tupleAt r''.pages slot = some t ∧ Live t ∧
      tid = heapTid t ∧
      ∀ u, tupleAt r.pages slot = some u → Live u ∧ callback (heapTid u) = false := by
  have hgood : ∀ s q k streaming, ∀ e ∈ (us.searchEf s q k streaming).1, ∃ slot r'' t,
      Reachable (indexesAfter r') r'' ∧ tupleAt r''.pages slot = some t ∧
      e.label = labelFromNode t.node := by
    intro s q k streaming e he
    obtain ⟨r'', t, hreach, ht, hlabel⟩ := hus s q k streaming e he
    exact ⟨e.slot, r'', t, hreach, ht, hlabel⟩
  have hempty : BatchFrom (fun label => ∃ slot r'' t, Reachable (indexesAfter r') r'' ∧
      tupleAt r''.pages slot = some t ∧ label = labelFromNode t.node) (ambeginscan s) :=
    List.forall_mem_nil _
  obtain ⟨_, ⟨slot, r'', t, hreach, ht, rfl⟩, hlive, htid⟩ := emits_from hgood hempty h
  refine ⟨slot, r'', t, hreach, ht, hlive, htid, fun u hu => ?_⟩
  obtain ⟨u', hu', hentry⟩ := hdel.entry hu
  obtain ⟨t', ht', hstay⟩ := deletedStay_after hr' hhead hreach slot u' hu'
  rw [ht] at ht'
  obtain rfl := Option.some.inj ht'
  -- had the entry been deleted, then, before or by this call, it would be so now
  have halive : Live u' := fun hdead => hlive (hstay hdead)
  constructor
  · intro hdead
    rw [hentry.others fun h => h.1 hdead] at halive
    exact halive hdead
  · by_contra hcb
    rw [Bool.not_eq_false] at hcb
    by_cases hu_live : Live u
    · exact halive (hentry.invalidated hu_live hcb)
    · rw [hentry.others fun h => hu_live h.1] at halive
      exact hu_live halive

theorem ldbAmbulkdelete_index {callback : ItemPointerData → Bool} (hr : IndexChain r)
    (hpos : 0 < r.header.numVectors) (hinvalid : callback ⟨0, 0⟩ = false) (stats : Option ℕ) :
    ∃ n, ∀ fuel ≥ n, ∃ s, ldbAmbulkdelete callback stats r fuel = .done s ∧
      s.pages = r.pages.map (deleteOnPage callback) ∧
      s.tuplesRemoved = stats.getD 0 + (newlyInvalid callback r.pages).length := by
  obtain ⟨n, hn⟩ := @ldbAmbulkdelete_done r callback stats hr hpos
  rw [bulkDeleteBlocks_index hr hpos, filter_condemned hinvalid] at hn
  exact ⟨n, fun fuel hf => ⟨_, hn fuel hf, rfl, rfl⟩⟩

/-- A bulk deletion over an index with nodes returns. It invalidates exactly the live
    entries that the predicate selects and counts them, and a second one finds none.
    Valid tids have valid labels, from which they are read back, and no later scan
    emits an entry that was invalidated. -/
theorem bulkDelete_exact (h : Reachable indexSystem r) (hpos : 0 < r.header.numVectors)
    {callback : ItemPointerData → Bool} (hinvalid : callback ⟨0, 0⟩ = false) :
    ∃ r', IndexStep r r' ∧ r'.header = r.header ∧ DeletesExactly callback r.pages r'.pages ∧
      (∀ stats, ∃ n, ∀ fuel ≥ n, ∃ s, ldbAmbulkdelete callback stats r fuel = .done s ∧
        s.pages = r'.pages ∧
        s.tuplesRemoved = stats.getD 0 + (newlyInvalid callback r.pages).length) ∧
      (∀ stats, ∃ n, ∀ fuel ≥ n, ∃ s, ldbAmbulkdelete callback stats r' fuel = .done s ∧
        s.pages = r'.pages ∧
        s.tuplesRemoved = stats.getD 0) ∧
      (∀ tid, HeapTid tid → itemPointer2Label tid ≠ INVALID_ELEMENT_LABEL ∧
        label2ItemPointer (itemPointer2Label tid) = tid) ∧
      ∀ (Query σ : Type) (us : Usearch Query σ), ReadsFrom us r' → ∀ initK orderBy s tid,
        Emits us initK orderBy (ambeginscan s) tid → ∃ slot r'' t, Reachable (indexesAfter r') r'' ∧
          tupleAt r''.pages slot = some t ∧ Live t ∧ tid = heapTid t ∧
          ∀ u, tupleAt r.pages slot = some u → Live u ∧ callback (heapTid u) = false := by
  have hr := reachable_chain h
  have hhead := reachable_headed h
  have hstep := IndexStep.bulkDelete (r := r) callback r.header.lastDataBlock (le_refl _)
  rw [bulkDeleteBlocks_index hr hpos] at hstep
  have hdel := deletesExactly_map hinvalid hhead
  have hr' := step_chain hr hstep
  have hhead' := (step_keeps hr hhead hstep).1
  have hnone : newlyInvalid callback (r.pages.map (deleteOnPage callback)) = [] := by
    rw [← filter_condemned hinvalid, List.filter_eq_nil_iff]
    intro t ht
    obtain ⟨p, hp, ht⟩ := List.mem_flatMap.mp ht
    obtain ⟨q, -, rfl⟩ := List.mem_map.mp hp
    exact List.any_eq_false.mp (delete_twice hinvalid q) t ht
  have hsame : (r.pages.map (deleteOnPage callback)).map (deleteOnPage callback) =
      r.pages.map (deleteOnPage callback) := by
    rw [List.map_map]
    exact List.map_congr_left fun p _ => deleteOnPage_of_none (delete_twice hinvalid p)
  refine ⟨_, hstep, rfl, hdel, ldbAmbulkdelete_index hr hpos hinvalid, fun stats =>
    ?_, fun tid htid => ?_, ?_⟩
  · obtain ⟨n, hn⟩ := ldbAmbulkdelete_index hr' hpos hinvalid stats
    rw [hnone, hsame] at hn
    exact ⟨n, hn⟩
  · exact ⟨itemPointer2Label_ne_invalid htid, label2ItemPointer_itemPointer2Label htid⟩
  · exact fun _ _ _ hus _ _ _ _ hemits => emits_live hr' hhead' hdel hus hemits

theorem indexOfThree_delete :
    ∃ r' : Rel, DeletesExactly (fun tid => tid == ⟨0, 2⟩) indexOfThree.pages r'.pages ∧
      ((tupleAt r'.pages ⟨1, 1⟩).map heapTid = some ⟨0, 1⟩ ∧
        (tupleAt r'.pages ⟨2, 1⟩).map heapTid = some ⟨0, 0⟩) ∧
      ∃ n, ∀ fuel ≥ n, ∃ s, ldbAmbulkdelete
        (fun tid => tid == ⟨0, 2⟩) none indexOfThree fuel = .done s ∧
        s.pages = r'.pages ∧ s.tuplesRemoved = 1 := by
  have hcount : 0 < indexOfThree.header.numVectors := by decide +kernel
  have hone : (newlyInvalid (fun tid => tid == ⟨0, 2⟩) indexOfThree.pages).length = 1 := by
    decide +kernel
  obtain ⟨r', -, -, hdel, hrun, -⟩ := @bulkDelete_exact indexOfThree indexOfThree_reachable hcount
    (fun tid => tid == ⟨0, 2⟩) (by decide)
  have hfirst := hrun none
  rw [hone] at hfirst
  refine ⟨r', hdel, ⟨?_, ?_⟩, hfirst⟩
  · obtain ⟨t, ht, htid⟩ := Option.map_eq_some_iff.mp
      (by decide +kernel : (tupleAt indexOfThree.pages ⟨1, 1⟩).map heapTid = some ⟨0, 1⟩)
    obtain ⟨t', ht', hentry⟩ := hdel.entry ht
    rw [hentry.others fun h => by rw [htid] at h; exact absurd h.2 (by decide)] at ht'
    rw [ht', Option.map_some, htid]
  · obtain ⟨t, ht, htid⟩ := Option.map_eq_some_iff.mp
      (by decide +kernel : (tupleAt indexOfThree.pages ⟨2, 1⟩).map heapTid = some ⟨0, 2⟩)
    obtain ⟨t', ht', hentry⟩ := hdel.entry ht
    have hlive : Live t := fun hdead => by
      rw [heapTid, hdead] at htid
      cases htid
    rw [ht', Option.map_some, heapTid, hentry.invalidated hlive (by rw [htid]; decide)]
    rfl

end Lantern.VacuumLabels
