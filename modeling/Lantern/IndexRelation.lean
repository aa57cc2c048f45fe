import Lantern.PageLayout
import Lantern.FuelLoop

set_option autoImplicit false

/-!
# The index relation

Block 0 is the header page. Blocks 1, 2, … are the list of pages: codebook
pages first when the index is quantized, then data pages, possibly with pages
in between that an aborted insert allocated and nobody initialised.
-/
namespace Lantern.IndexRelation
open NodeLayout PageLayout FuelLoop

/-- `elog` is a raised error and `assertFailed` a failed `assert`. The others are
    behaviour that C leaves undefined, made visible so that its absence can be
    proved. -/
inductive Fault where
  | elog (text : String)
  | assertFailed (condition : String)
  | nullDereference
  | useAfterFree
  | readPastBuffer
  | writePastBuffer
  deriving DecidableEq, Repr

structure UsearchHeader where
  entrySlot : ℕ
  rest : List UInt8
  deriving DecidableEq, Repr

structure HnswIndexHeaderPage where
  magicNumber : ℕ
  version : ℕ
  vectorDim : ℕ
  m : ℕ
  efConstruction : ℕ
  ef : ℕ
  metricKind : MetricKind
  numVectors : ℕ
  lastDataBlock : ℕ
  usearchHeader : UsearchHeader
  pq : Bool
  numCentroids : ℕ
  numSubvectors : ℕ
  quantization : ScalarKind
  deriving DecidableEq, Repr

def LDB_WAL_MAGIC_NUMBER : ℕ := 0xa47e60db
def LDB_WAL_VERSION_NUMBER : ℕ := 0x00000003

structure Rel where
  header : HnswIndexHeaderPage
  pages : List Page
  deriving DecidableEq, Repr

def getPage (pages : List Page) : ℕ → Page
  | 0 => zeroPage
  | b + 1 => pages.getD b zeroPage

def setPage (pages : List Page) : ℕ → Page → List Page
  | 0, _ => pages
  | b + 1, p => pages.set b p

def tupleAt (pages : List Page) (tid : ItemPointerData) : Option HnswIndexTuple :=
  if tid.posid = 0 then none else (getPage pages tid.block).items[tid.posid - 1]?

def readBufferNew (pages : List Page) : Outcome Fault (ℕ × List Page) :=
  if pages.length + 1 < InvalidBlockNumber then .done (pages.length + 1, pages ++ [zeroPage])
  else .fault (.elog "cannot extend relation beyond 4294967295 blocks")

variable {pages : List Page} {b : ℕ}

theorem getPage_setPage_self (hb : 0 < b) (hl : b ≤ pages.length) (p : Page) :
    getPage (setPage pages b p) b = p := by
  cases b with
  | zero => omega
  | succ b => simp [getPage, setPage, List.getD_eq_getElem?_getD, show b < pages.length by omega]

theorem getPage_setPage_ne {c : ℕ} (h : c ≠ b) (pages : List Page) (p : Page) :
    getPage (setPage pages b p) c = getPage pages c := by
  cases b with
  | zero => rfl
  | succ b =>
    cases c with
    | zero => rfl
    | succ c => simp [getPage, setPage, List.getD_eq_getElem?_getD, show b ≠ c by omega]

@[simp] theorem setPage_length (pages : List Page) (b : ℕ) (p : Page) :
    (setPage pages b p).length = pages.length := by
  cases b <;> simp [setPage]

theorem setPage_setPage (pages : List Page) (b : ℕ) (p q : Page) :
    setPage (setPage pages b p) b q = setPage pages b q := by
  cases b <;> simp [setPage]

theorem getPage_append_left (h : b ≤ pages.length) (extra : List Page) :
    getPage (pages ++ extra) b = getPage pages b := by
  cases b with
  | zero => rfl
  | succ b =>
    simp [getPage, List.getD_eq_getElem?_getD,
      List.getElem?_append_left (show b < pages.length by omega)]

theorem getPage_beyond (h : pages.length < b) : getPage pages b = zeroPage := by
  cases b with
  | zero => omega
  | succ b =>
    simp [getPage, List.getD_eq_getElem?_getD,
      List.getElem?_eq_none (show pages.length ≤ b by omega)]

theorem getPage_append_zero (pages : List Page) (b : ℕ) :
    getPage (pages ++ [zeroPage]) b = getPage pages b := by
  cases b with
  | zero => rfl
  | succ b =>
    simp only [getPage, List.getD_eq_getElem?_getD, List.getElem?_append]
    by_cases h : b < pages.length
    · simp [h]
    · rw [if_neg h, List.getElem?_eq_none (show pages.length ≤ b by omega)]
      cases b - pages.length <;> rfl

theorem getPage_append_replicate (pages : List Page) (k b : ℕ) :
    getPage (pages ++ List.replicate k zeroPage) b = getPage pages b := by
  induction k with
  | zero => simp
  | succ k ih => rw [List.replicate_succ', ← List.append_assoc, getPage_append_zero, ih]

theorem pages_ext {ps qs : List Page} (hl : ps.length = qs.length)
    (h : ∀ b, getPage ps b = getPage qs b) : ps = qs := by
  apply List.ext_getElem hl
  intro i hp hq
  have hi := h (i + 1)
  simpa [getPage, List.getD_eq_getElem?_getD, hp, hq] using hi

theorem readBufferNew_eq_done {ps : List Page} (h : readBufferNew pages = .done (b, ps)) :
    b = pages.length + 1 ∧ b < InvalidBlockNumber ∧ ps = pages ++ [zeroPage] := by
  unfold readBufferNew at h
  split at h
  · cases h
    exact ⟨rfl, by assumption, rfl⟩
  · cases h

end Lantern.IndexRelation
