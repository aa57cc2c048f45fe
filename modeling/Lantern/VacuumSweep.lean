import Lantern.IndexRuns

set_option autoImplicit false

/-!
# The sweep of a bulk deletion

`ldb_ambulkdelete` counts a block number of 32 bits up to the last data block and
reads every block on the way, whatever the block is for. In an index without nodes
the last data block is the largest block number, and the sweep runs into a block that
is not there.
-/
namespace Lantern.VacuumSweep
open FuelLoop NodeLayout PageLayout IndexRelation PageChain InsertTuple BulkDelete
  SystemRuns IndexRuns

def sweepItems (callback : ItemPointerData → Bool) : List HnswIndexTuple → ℕ →
      List HnswIndexTuple × Bool × ℕ
  | [], removed => ([], false, removed)
  | t :: ts, removed =>
    if condemned callback t then
      let (swept, _, n) := sweepItems callback ts (removed + 1)
      ({ t with node := resetNodeLabel t.node } :: swept, true, n)
    else
      let (swept, modified, n) := sweepItems callback ts removed
      (t :: swept, modified, n)

/-- `visited` is not a variable of the code: it records the blocks that were read. -/
structure Sweep where
  blockno : ℕ
  pages : List Page
  tuplesRemoved : ℕ
  visited : List ℕ
  deriving DecidableEq, Repr

def couldNotRead : Fault := .elog "could not read block"

/-- A page without changes is not written. Block 0 is the header, and there are as
    many blocks after it as there are pages. -/
def sweepPass (callback : ItemPointerData → Bool) (s : Sweep) : Outcome Fault Sweep :=
  if s.pages.length < s.blockno then .fault couldNotRead
  else
    let page := getPage s.pages s.blockno
    let (items, modified, removed) := sweepItems callback page.items s.tuplesRemoved
    let pages :=
      if modified then setPage s.pages s.blockno { page with items := items } else s.pages
    .done ⟨(s.blockno + 1) % 2 ^ 32, pages, removed, s.visited ++ [s.blockno]⟩

/-- `stats` is what an earlier call returned, if there was one. -/
def ldbAmbulkdelete (callback : ItemPointerData → Bool) (stats : Option ℕ) (r : Rel) (fuel : ℕ) :
    Outcome Fault Sweep :=
  loop (fun s => s.blockno ≤ r.header.lastDataBlock) (sweepPass callback) fuel ⟨1, r.pages,
    stats.getD 0, []⟩

section Pass
variable {callback : ItemPointerData → Bool}

theorem sweepItems_eq (ts : List HnswIndexTuple) (removed : ℕ) :
    sweepItems callback ts removed =
      (ts.map fun t => if condemned callback t then { t with node := resetNodeLabel t.node } else t,
        ts.any (condemned callback), removed + (ts.filter (condemned callback)).length) := by
  induction ts generalizing removed with
  | nil => rfl
  | cons t ts ih =>
    rw [sweepItems]
    by_cases hc : condemned callback t = true
    · simp [ih, hc]
      omega
    · simp [ih, hc]

theorem deleteOnPage_of_none {p : Page} (h : p.items.any (condemned callback) = false) :
    deleteOnPage callback p = p := by
  have hitems : (p.items.map fun t =>
      if condemned callback t then { t with node := resetNodeLabel t.node } else t) = p.items := by
    conv_rhs => rw [← List.map_id p.items]
    refine List.map_congr_left fun t ht => ?_
    rw [if_neg (List.any_eq_false.mp h t ht)]
    rfl
  rw [deleteOnPage, hitems]

theorem setPage_getPage (pages : List Page) (b : ℕ) :
    setPage pages b (getPage pages b) = pages := by
  cases b with
  | zero => rfl
  | succ b =>
    apply List.ext_getElem?
    intro i
    simp only [setPage, getPage, List.getElem?_set, List.getD_eq_getElem?_getD]
    by_cases hi : b = i
    · subst hi
      by_cases hb : b < pages.length
      · simp [hb]
      · simp [hb]
    · simp [hi]

theorem sweepPass_eq (s : Sweep) :
    sweepPass callback s = if s.pages.length < s.blockno then .fault couldNotRead
      else .done ⟨(s.blockno + 1) % 2 ^ 32,
        setPage s.pages s.blockno (deleteOnPage callback (getPage s.pages s.blockno)),
        s.tuplesRemoved + ((getPage s.pages s.blockno).items.filter (condemned callback)).length,
        s.visited ++ [s.blockno]⟩ := by
  rw [sweepPass]
  split_ifs with hmissing
  · rfl
  · simp only [sweepItems_eq]
    cases hany : (getPage s.pages s.blockno).items.any (condemned callback) with
    | true => rfl
    | false =>
      simp only [Bool.false_eq_true, if_false]
      rw [deleteOnPage_of_none hany, setPage_getPage]

end Pass

section Runs
variable {callback : ItemPointerData → Bool} {last : ℕ}

abbrev SweepEnds (callback : ItemPointerData → Bool) (last : ℕ) (s : Sweep)
    (r : Outcome Fault Sweep) : Prop :=
  Ends (fun s => decide (s.blockno ≤ last)) (sweepPass callback) s r

theorem sweepEnds_done (remaining : ℕ) {s : Sweep} (hlast : s.blockno + remaining = last + 1)
    (hlen : last ≤ s.pages.length) (hblocks : s.pages.length < InvalidBlockNumber) :
    SweepEnds callback last s (.done ⟨last + 1,
      (bulkDeleteBlocks callback remaining s.blockno s.pages s.tuplesRemoved).pages,
      (bulkDeleteBlocks callback remaining s.blockno s.pages s.tuplesRemoved).tuplesRemoved,
      s.visited ++ List.range' s.blockno remaining⟩) := by
  have hinv : InvalidBlockNumber = 2 ^ 32 - 1 := rfl
  induction remaining generalizing s with
  | zero =>
    have hexit :
        s = ⟨last + 1, s.pages, s.tuplesRemoved, s.visited ++ List.range' s.blockno 0⟩ := by
      rw [List.range'_zero, List.append_nil, ← hlast]
      rfl
    rw [bulkDeleteBlocks, ← hexit]
    exact .exit (by simp; omega)
  | succ remaining ih =>
    have hpass := @sweepPass_eq callback s
    rw [if_neg (by omega), Nat.mod_eq_of_lt (by omega)] at hpass
    refine .next (by simp; omega) hpass ?_
    have hrest :=
      @ih ⟨s.blockno + 1,
      setPage s.pages s.blockno (deleteOnPage callback (getPage s.pages s.blockno)),
      s.tuplesRemoved + ((getPage s.pages s.blockno).items.filter (condemned callback)).length,
      s.visited ++ [s.blockno]⟩ (by simp only; omega) (by simpa using hlen) (by simpa using hblocks)
    rw [bulkDeleteBlocks, if_neg (by omega), List.range'_succ]
    simpa using hrest

theorem sweepEnds_missing (ahead : ℕ) {s : Sweep} (hahead : s.blockno + ahead = s.pages.length + 1)
    (hlast : s.pages.length < last) (hblocks : s.pages.length < InvalidBlockNumber) :
    SweepEnds callback last s (.fault couldNotRead) := by
  have hinv : InvalidBlockNumber = 2 ^ 32 - 1 := rfl
  have hpass := @sweepPass_eq callback s
  induction ahead generalizing s with
  | zero =>
    rw [if_pos (by omega)] at hpass
    exact .fault (by simp; omega) hpass
  | succ ahead ih =>
    rw [if_neg (by omega), Nat.mod_eq_of_lt (by omega)] at hpass
    refine .next (by simp; omega) hpass ?_
    exact ih (by simp only [setPage_length]; omega) (by simpa using hlast) (by simpa using hblocks)
      (sweepPass_eq _)

end Runs

/-- The call returns, has read blocks of the relation only, and has read every block
    with nodes once. -/
def SweepsOnce (callback : ItemPointerData → Bool) (stats : Option ℕ) (r : Rel) : Prop :=
  ∃ n, ∀ fuel ≥ n, ∃ s, ldbAmbulkdelete callback stats r fuel = .done s ∧
    (∀ b ∈ s.visited, b ≤ r.pages.length) ∧ ∀ b ∈ dataBlocks r.pages, s.visited.count b = 1

section Indexes
variable {r : Rel} {callback : ItemPointerData → Bool} {stats : Option ℕ}

theorem lastDataBlock_valid_iff (hr : IndexChain r) :
    r.header.lastDataBlock ≠ InvalidBlockNumber ↔ 0 < r.header.numVectors := by
  rw [ne_eq, ← hr.chained.eq_nil_iff]
  have hnumbered := hr.chained.numbered
  constructor
  · intro hne
    rw [Nat.pos_iff_ne_zero]
    intro hzero
    obtain ⟨d, hd⟩ := List.exists_mem_of_ne_nil _ hne
    have hitems := (getPage_of_mem_dataPages hd).2.2.2
    rw [hzero, List.range_zero, List.flatMap_eq_nil_iff] at hnumbered
    exact hitems (List.map_eq_nil_iff.mp (hnumbered d hd))
  · intro hpos hnil
    rw [hnil] at hnumbered
    have hlen := congrArg List.length hnumbered
    rw [List.length_range] at hlen
    exact absurd hlen (ne_of_lt hpos)

theorem ldbAmbulkdelete_done (hr : IndexChain r) (hpos : 0 < r.header.numVectors) :
    ∃ n, ∀ fuel ≥ n, ldbAmbulkdelete callback stats r fuel = .done ⟨r.header.lastDataBlock + 1,
      (bulkDeleteBlocks callback r.header.lastDataBlock 1 r.pages (stats.getD 0)).pages,
      (bulkDeleteBlocks callback r.header.lastDataBlock 1 r.pages (stats.getD 0)).tuplesRemoved,
      List.range' 1 r.header.lastDataBlock⟩ := by
  obtain ⟨-, -, -, hle, -⟩ := hr.chained.lastPage ((lastDataBlock_valid_iff hr).mpr hpos)
  exact (@sweepEnds_done callback _ r.header.lastDataBlock ⟨1, r.pages, stats.getD 0, []⟩
    (Nat.add_comm _ _) hle hr.length_lt).loop_eq

theorem ldbAmbulkdelete_empty (hr : IndexChain r) (hzero : r.header.numVectors = 0) :
    ∃ n, ∀ fuel ≥ n, ldbAmbulkdelete callback stats r fuel = .fault couldNotRead := by
  have hlast : r.header.lastDataBlock = InvalidBlockNumber := by
    by_contra hl
    exact absurd ((lastDataBlock_valid_iff hr).mp hl) (by omega)
  exact (@sweepEnds_missing callback _ r.pages.length ⟨1, r.pages, stats.getD 0, []⟩
    (Nat.add_comm _ _) (by rw [hlast]; exact hr.length_lt) hr.length_lt).loop_eq

/-- In every reachable index the sweep is in order exactly if the index holds a node. -/
theorem sweepsOnce_iff (h : Reachable indexSystem r) (callback : ItemPointerData → Bool)
    (stats : Option ℕ) :
    SweepsOnce callback stats r ↔ 0 < r.header.numVectors := by
  have hr := reachable_chain h
  constructor
  · rintro ⟨n, hn⟩
    by_contra hzero
    obtain ⟨m, hm⟩ := @ldbAmbulkdelete_empty r callback stats hr (by omega)
    obtain ⟨s, hs, -⟩ := hn (max n m) (le_max_left _ _)
    rw [hm (max n m) (le_max_right _ _)] at hs
    cases hs
  · intro hpos
    obtain ⟨n, hn⟩ := @ldbAmbulkdelete_done r callback stats hr hpos
    have hvalid := (lastDataBlock_valid_iff hr).mpr hpos
    obtain ⟨-, -, -, hle, -⟩ := hr.chained.lastPage hvalid
    refine ⟨n, fun fuel hf => ⟨_, hn fuel hf, fun b hb => ?_, fun b hb => ?_⟩⟩
    · have hrange := List.mem_range'_1.mp hb
      omega
    · -- a block with nodes is not behind the last data block
      obtain ⟨hrange, hitems⟩ := List.mem_filter.mp hb
      have hbounds := List.mem_range'_1.mp hrange
      have hne : (getPage r.pages b).items ≠ [] := by simpa using hitems
      obtain ⟨t, ht⟩ := List.exists_mem_of_ne_nil _ hne
      obtain ⟨i, hi⟩ := List.mem_iff_getElem?.mp ht
      have htuple : tupleAt r.pages ⟨b, i + 1⟩ = some t := hi
      have hbl := hr.chained.block_le hvalid htuple
      exact List.count_eq_one_of_mem List.nodup_range' (List.mem_range'_1.mpr ⟨hbounds.1, by
        simp only at hbl; omega⟩)

end Indexes

theorem indexOfFour_sweepsOnce : SweepsOnce (fun tid => tid == ⟨0, 3⟩) none indexOfFour :=
  (sweepsOnce_iff indexOfFour_reachable (fun tid => tid == ⟨0, 3⟩) none).mpr (by decide +kernel)

theorem emptyIndex_sweep_fails :
    Reachable indexSystem emptyIndex ∧ emptyIndex.header.lastDataBlock = InvalidBlockNumber ∧
      (∀ fuel ≥ 1, ldbAmbulkdelete (fun _ => true) none emptyIndex fuel = .fault couldNotRead) ∧
      ¬ SweepsOnce (fun _ => true) none emptyIndex := by
  have hfails :
      ∀ fuel ≥ 1, ldbAmbulkdelete (fun _ => true) none emptyIndex fuel = .fault couldNotRead := by
    intro fuel hf
    obtain ⟨k, rfl⟩ : ∃ k, fuel = k + 1 := ⟨fuel - 1, by omega⟩
    rfl
  refine ⟨.start ⟨tinyMetadata, .empty ⟨0, []⟩ 1 tinyMetadata.initOptions⟩, rfl, hfails, ?_⟩
  rintro ⟨n, hn⟩
  obtain ⟨s, hs, -⟩ := hn (n + 1) (Nat.le_succ n)
  rw [hfails (n + 1) (Nat.succ_le_succ (Nat.zero_le n))] at hs
  cases hs

end Lantern.VacuumSweep
