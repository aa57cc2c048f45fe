import Mathlib.Data.Nat.Log
import Mathlib.Data.List.ReduceOption
import Lantern.EventTrail
import Lantern.IndexRelation

set_option autoImplicit false

/-!
# Room in the index during a local build

The index gets room for as many vectors as the table is estimated to have rows, and
twice the room when it is full. The estimate is a product of 32 bits and can be zero
for a table with rows, and twice nothing is nothing.
-/
namespace Lantern.BuildCapacity
open FuelLoop IndexRelation EventTrail

def EXTERNAL_INDEX_MIN_TUPLES : ℕ := 1

structure Heap where
  numBlocks : UInt32
  maxOffsetNumber : UInt16
  deriving DecidableEq, Repr

def estimateRowCount (heap : Heap) : UInt32 :=
  if 0 < heap.numBlocks then heap.maxOffsetNumber.toUInt32 * heap.numBlocks else 0

structure UsearchIndex where
  size : ℕ
  capacity : ℕ
  deriving DecidableEq, Repr

def usearchInit : UsearchIndex := ⟨0, 0⟩

def usearchReserve (n : ℕ) (index : UsearchIndex) : UsearchIndex :=
  if index.capacity < n then { index with capacity := n } else index

/-- Without room nothing is added, and the error that is set then is looked at only by
    an assertion. -/
def usearchAdd (index : UsearchIndex) : UsearchIndex :=
  if index.size < index.capacity then { index with size := index.size + 1 } else index

inductive HnswColumnType where
  | realArray | vector | intArray
  deriving DecidableEq, Repr

inductive Event where
  | sendTuple
  | add (size capacity : ℕ)
  deriving DecidableEq, Repr

structure BuildState where
  columnType : HnswColumnType
  dimensions : ℕ
  externalSocket : Bool
  usearchIndex : UsearchIndex
  tuplesIndexed : ℕ
  deriving DecidableEq, Repr

abbrev Build (α : Type) := Trail Event Fault α

def checkHnswIndexDimensions (columnType : HnswColumnType) (nItems dimensions : ℕ) : Build Unit :=
  match columnType with
  | .vector => .pure ()
  | _ =>
    if nItems ≠ dimensions then
      .raise (.elog s!"Wrong number of dimensions: {nItems} instead of {dimensions} expected")
    else .pure ()

def HnswColumnType.text : HnswColumnType → String
  | .realArray => "real array"
  | .vector => "vector"
  | .intArray => "int array"

def datumGetSizedArray (columnType : HnswColumnType) (nItems dimensions : ℕ) : Build Unit :=
  if nItems ≠ dimensions then
    .raise (.elog s!"Expected {columnType.text} with dimension {dimensions}, got {nItems}")
  else .pure ()

/-- `2 * capacity` is a `size_t`. -/
def makeRoom (index : UsearchIndex) : UsearchIndex :=
  if index.capacity = index.size then usearchReserve (2 * index.capacity % 2 ^ 64) index else index

def addTupleToUsearchIndex (nItems : ℕ) (s : BuildState) : Build BuildState :=
  (datumGetSizedArray s.columnType nItems s.dimensions).bind fun _ =>
    if s.externalSocket then
      (Trail.emit .sendTuple).bind fun _ => .pure { s with tuplesIndexed := s.tuplesIndexed + 1 }
    else
      let index := makeRoom s.usearchIndex
      (Trail.emit (.add index.size index.capacity)).bind fun _ =>
        .pure { s with usearchIndex := usearchAdd index, tuplesIndexed := s.tuplesIndexed + 1 }

def buildCallback (s : BuildState) : Option ℕ → Build BuildState
  | none => .pure s
  | some nItems =>
    (checkHnswIndexDimensions s.columnType nItems s.dimensions).bind fun _ =>
      addTupleToUsearchIndex nItems s

def scanTable : List (Option ℕ) → BuildState → Build BuildState
  | [], s => .pure s
  | row :: rows, s => (buildCallback s row).bind (scanTable rows)

def buildIndex (heap : Heap) (columnType : HnswColumnType) (dimensions : ℕ) (external : Bool)
    (rows : List (Option ℕ)) : Build BuildState :=
  let estimatedRowCount := (estimateRowCount heap).toNat
  let external := if estimatedRowCount < EXTERNAL_INDEX_MIN_TUPLES then false else external
  let index := if external then usearchInit else usearchReserve estimatedRowCount usearchInit
  scanTable rows ⟨columnType, dimensions, external, index, 0⟩

/-- The rows that are added: not those that are null, and none from the first on that
    has another dimension. -/
def rowsAdded (dimensions : ℕ) (rows : List (Option ℕ)) : ℕ :=
  (rows.reduceOption.takeWhile fun nItems => nItems == dimensions).length

def adds : ℕ → UsearchIndex → List Event
  | 0, _ => []
  | n + 1, index =>
    .add (makeRoom index).size (makeRoom index).capacity :: adds n (usearchAdd (makeRoom index))

variable {s : BuildState} {c : ℕ}

theorem buildCallback_wrong {nItems : ℕ} (h : nItems ≠ s.dimensions) :
    ∃ e, buildCallback s (some nItems) = .raise e := by
  have hcheck : checkHnswIndexDimensions s.columnType nItems s.dimensions = .pure () ∨
      ∃ e, checkHnswIndexDimensions s.columnType nItems s.dimensions = .raise e := by
    unfold checkHnswIndexDimensions
    cases s.columnType with
    | vector => exact .inl rfl
    | _ => exact .inr ⟨_, if_pos h⟩
  rw [buildCallback, addTupleToUsearchIndex, datumGetSizedArray, if_pos h]
  rcases hcheck with hcheck | ⟨e, hcheck⟩
  · rw [hcheck]
    exact ⟨_, rfl⟩
  · rw [hcheck]
    exact ⟨e, rfl⟩

theorem buildCallback_right {nItems : ℕ} (h : nItems = s.dimensions) :
    buildCallback s (some nItems) =
      if s.externalSocket then ⟨[.sendTuple], .done { s with tuplesIndexed := s.tuplesIndexed + 1 }⟩
      else ⟨[.add (makeRoom s.usearchIndex).size (makeRoom s.usearchIndex).capacity],
        .done { s with
          usearchIndex := usearchAdd (makeRoom s.usearchIndex),
            tuplesIndexed := s.tuplesIndexed + 1 }⟩ := by
  have hcheck : checkHnswIndexDimensions s.columnType nItems s.dimensions = .pure () := by
    unfold checkHnswIndexDimensions
    cases s.columnType with
    | vector => rfl
    | _ => exact if_neg (not_not.mpr h)
  rw [buildCallback, hcheck, Trail.pure_bind, addTupleToUsearchIndex, datumGetSizedArray,
    if_neg (not_not.mpr h), Trail.pure_bind]
  rfl

theorem rowsAdded_cons_some (dimensions nItems : ℕ) (rows : List (Option ℕ)) :
    rowsAdded dimensions (some nItems :: rows) =
      if nItems = dimensions then rowsAdded dimensions rows + 1 else 0 := by
  rw [rowsAdded, List.reduceOption_cons_of_some, List.takeWhile_cons]
  by_cases h : nItems = dimensions
  · simp [h, rowsAdded]
  · simp [h]

theorem events_scanTable (rows : List (Option ℕ)) (hlocal : s.externalSocket = false) :
    (scanTable rows s).events = adds (rowsAdded s.dimensions rows) s.usearchIndex := by
  induction rows generalizing s with
  | nil => rfl
  | cons row rows ih =>
    cases row with
    | none => exact ih hlocal
    | some nItems =>
      rw [scanTable, rowsAdded_cons_some]
      by_cases h : nItems = s.dimensions
      · rw [buildCallback_right h, hlocal, if_neg Bool.false_ne_true, Trail.done_bind,
          if_pos h, adds, ih rfl]
        rfl
      · obtain ⟨e, he⟩ := buildCallback_wrong h
        rw [he, if_neg h]
        rfl

theorem external_events (rows : List (Option ℕ)) (hexternal : s.externalSocket = true) :
    ∀ e ∈ (scanTable rows s).events, e = .sendTuple := by
  induction rows generalizing s with
  | nil => exact List.forall_mem_nil _
  | cons row rows ih =>
    cases row with
    | none => exact ih hexternal
    | some nItems =>
      rw [scanTable]
      by_cases h : nItems = s.dimensions
      · rw [buildCallback_right h, hexternal, if_pos rfl, Trail.done_bind]
        exact List.forall_mem_cons.mpr ⟨rfl, ih rfl⟩
      · obtain ⟨e, he⟩ := buildCallback_wrong h
        rw [he]
        exact List.forall_mem_nil _

def HasRoom : Event → Prop
  | .sendTuple => True
  | .add size capacity => size < capacity

def largestCapacity (capacity : ℕ) : ℕ := capacity * 2 ^ (63 - Nat.log 2 capacity)

theorem largestCapacity_double (hpos : c ≠ 0) (h : 2 * c < 2 ^ 64) :
    largestCapacity (2 * c) = largestCapacity c := by
  have hlog : Nat.log 2 (2 * c) = Nat.log 2 c + 1 := by
    rw [Nat.mul_comm, Nat.log_mul_base Nat.one_lt_two hpos]
  have hlt : Nat.log 2 c < 63 := Nat.log_lt_of_lt_pow hpos (by omega)
  have hsub : 63 - Nat.log 2 c = 63 - (Nat.log 2 c + 1) + 1 := by omega
  rw [largestCapacity, largestCapacity, hlog, hsub, pow_succ]
  ring

theorem largestCapacity_full (h : 2 ^ 64 ≤ 2 * c) (hlt : c < 2 ^ 64) : largestCapacity c = c := by
  have hlog : Nat.log 2 c = 63 := by
    rw [Nat.log_eq_iff (by simp)]
    constructor
    · omega
    · exact hlt
  rw [largestCapacity, hlog]
  omega

theorem le_largestCapacity (c : ℕ) : c ≤ largestCapacity c :=
  Nat.le_mul_of_pos_right c (by positivity)

theorem makeRoom_of_room {index : UsearchIndex} (h : index.size < index.capacity) :
    makeRoom index = index :=
  if_neg h.ne'

theorem makeRoom_doubles (hpos : c ≠ 0) (h : 2 * c < 2 ^ 64) : makeRoom ⟨c, c⟩ = ⟨c, 2 * c⟩ := by
  have hgrows : c < 2 * c := by omega
  rw [makeRoom, if_pos rfl, Nat.mod_eq_of_lt h, usearchReserve, if_pos hgrows]

theorem makeRoom_stuck (hlt : c < 2 ^ 64) (h : ¬(c ≠ 0 ∧ 2 * c < 2 ^ 64)) :
    makeRoom ⟨c, c⟩ = ⟨c, c⟩ := by
  rw [makeRoom, if_pos rfl, usearchReserve, if_neg (by simp only; omega)]

theorem adds_hasRoom_iff (n : ℕ) {index : UsearchIndex} (hsize : index.size ≤ index.capacity)
    (hcapacity : index.capacity < 2 ^ 64) :
    (∀ e ∈ adds n index, HasRoom e) ↔
      n = 0 ∨ index.capacity ≠ 0 ∧ index.size + n ≤ largestCapacity index.capacity := by
  induction n generalizing index with
  | zero => simp [adds]
  | succ n ih =>
    have hlargest := le_largestCapacity index.capacity
    rw [adds, List.forall_mem_cons]
    rcases hsize.lt_or_eq with hlt | heq
    · rw [makeRoom_of_room hlt]
      have hadd : usearchAdd index = ⟨index.size + 1, index.capacity⟩ := if_pos hlt
      rw [hadd, @ih ⟨index.size + 1, index.capacity⟩ hlt hcapacity]
      simp only [HasRoom]
      omega
    · -- the index is full
      obtain ⟨c, capacity⟩ := index
      dsimp only at heq hcapacity hlargest ⊢
      subst heq
      by_cases hdouble : c ≠ 0 ∧ 2 * c < 2 ^ 64
      · have hgrows : c < 2 * c := by omega
        have hadd : usearchAdd ⟨c, 2 * c⟩ = ⟨c + 1, 2 * c⟩ := if_pos hgrows
        have hlarger := le_largestCapacity (2 * c)
        rw [makeRoom_doubles hdouble.1 hdouble.2, hadd, @ih ⟨c + 1, 2 * c⟩ hgrows hdouble.2,
          largestCapacity_double hdouble.1 hdouble.2]
        simp only [HasRoom]
        rw [largestCapacity_double hdouble.1 hdouble.2] at hlarger
        omega
      · have hfull : c = 0 ∨ largestCapacity c = c := by
          rcases Nat.eq_zero_or_pos c with hzero | hpos
          · exact .inl hzero
          · exact .inr (largestCapacity_full (by omega) hcapacity)
        rw [makeRoom_stuck hcapacity hdouble]
        simp only [HasRoom]
        omega

theorem forall_hasRoom_iff {events : List Event} :
    (∀ e ∈ events, HasRoom e) ↔ ∀ size capacity, .add size capacity ∈ events → size < capacity := by
  constructor
  · exact fun h size capacity he => h _ he
  · intro h e he
    cases e with
    | sendTuple => trivial
    | add size capacity => exact h size capacity he

theorem usearchReserve_init (estimated : ℕ) :
    usearchReserve estimated usearchInit = ⟨0, estimated⟩ := by
  unfold usearchReserve usearchInit
  split_ifs with hpos
  · rfl
  · rw [Nat.eq_zero_of_not_pos hpos]

/-- The rows all find room exactly if none is added, or if the estimate is not zero and
    the index is not local or can be doubled often enough. -/
theorem adds_room_iff (heap : Heap) (columnType : HnswColumnType) (dimensions : ℕ) (external : Bool)
    (rows : List (Option ℕ)) :
    (∀ size capacity,
      .add size capacity ∈ (buildIndex heap columnType dimensions external rows).events →
        size < capacity) ↔
      rowsAdded dimensions rows = 0 ∨ estimateRowCount heap ≠ 0 ∧
        (external = true ∨
          rowsAdded dimensions rows ≤ largestCapacity (estimateRowCount heap).toNat) := by
  have hzero : estimateRowCount heap ≠ 0 ↔ (estimateRowCount heap).toNat ≠ 0 := by
    rw [ne_eq, ← UInt32.toNat_inj]
    rfl
  have hlt : (estimateRowCount heap).toNat < 2 ^ 32 := (estimateRowCount heap).toNat_lt
  rw [← forall_hasRoom_iff, hzero]
  unfold buildIndex
  generalize (estimateRowCount heap).toNat = estimated at hlt ⊢
  by_cases hsent : external = true ∧ estimated ≠ 0
  · -- every row is sent
    have hexternal :
        (if estimated < EXTERNAL_INDEX_MIN_TUPLES then false else external) = true := by
      rw [if_neg (by unfold EXTERNAL_INDEX_MIN_TUPLES; omega), hsent.1]
    simp only [hexternal]
    refine iff_of_true (fun e he => ?_) (.inr ⟨hsent.2, .inl hsent.1⟩)
    rw [external_events rows rfl e he]
    trivial
  · have hlocal : (if estimated < EXTERNAL_INDEX_MIN_TUPLES then false else external) = false := by
      split_ifs with hfew
      · rfl
      · unfold EXTERNAL_INDEX_MIN_TUPLES at hfew
        exact Bool.eq_false_of_not_eq_true fun h => hsent ⟨h, by omega⟩
    simp only [hlocal, Bool.false_eq_true, if_false, usearchReserve_init]
    rw [events_scanTable rows rfl,
      adds_hasRoom_iff _ (Nat.zero_le estimated) (hlt.trans (by decide))]
    simp only [Nat.zero_add]
    tauto

theorem zero_estimate_no_room :
    .add 0 0 ∈ (buildIndex ⟨33554432, 128⟩ .realArray 3 false [some 3]).events ∧
    .add 0 0 ∈ (buildIndex ⟨2, 0⟩ .realArray 3 false [some 3]).events := by decide

end Lantern.BuildCapacity
