import Mathlib.Data.Rat.Floor
import Mathlib.Data.Rat.Sqrt
import Lantern.Fallible
import Lantern.OrderedLimit

set_option autoImplicit false

/-!
# Recall of a tuned index

The tuning of an index takes a sample of the vectors and stores, for some of them, which
rows are nearest by the metric of the index. An index is then measured by asking for the
nearest rows again. The first query calls the function of the metric, the second always
uses the operator `<->`.
-/
namespace Lantern.RecallQueries
open OrderedLimit

inductive UMetricKind where
  | l2sq | cos | hamming
  deriving DecidableEq, Repr

def UMetricKind.sqlFunction : UMetricKind → String
  | .l2sq => "l2sq_dist"
  | .cos => "cos_dist"
  | .hamming => "hamming_dist"

def UMetricKind.sqlOperator : UMetricKind → String
  | .l2sq => "<->"
  | .cos => "<=>"
  | .hamming => "<+>"

inductive ArrayType (F : Type) where
  | reals (xs : List F)
  | integers (xs : List ℤ)
  deriving DecidableEq

def ArrayType.nItems {F : Type} : ArrayType F → ℕ
  | .reals xs => xs.length
  | .integers xs => xs.length

def ArrayType.elemType {F : Type} : ArrayType F → ℕ
  | .reals _ => 700
  | .integers _ => 23

/-- What the distance library computes, and the cast of an integer to a real. -/
structure Distances (F R : Type) where
  toReal : ℤ → F
  l2sq : List F → List F → R
  cos : List F → List F → R
  /-- The number of bits in which the integers differ. -/
  hamming : List ℤ → List ℤ → R

section Queries
variable {F R : Type} [LinearOrder R] (d : Distances F R)

def Distances.toFloat4Array : ArrayType F → List F
  | .reals xs => xs
  | .integers xs => xs.map d.toReal

def Distances.asReals (a : ArrayType F) : ArrayType F := .reals (d.toFloat4Array a)

def arrayDist (metric : UMetricKind) (a b : ArrayType F) : Except String R :=
  if a.nItems ≠ b.nItems then
    .error s!"expected equally sized arrays but got arrays with dimensions {a.nItems} and {b.nItems}"
  else
    match metric with
    | .hamming =>
      match a, b with
      | .integers xs, .integers ys => .ok (d.hamming xs ys)
      | _, _ => .error s!"expected integer array but got array with element type {a.elemType}"
    | .l2sq => .ok (d.l2sq (d.toFloat4Array a) (d.toFloat4Array b))
    | .cos => .ok (d.cos (d.toFloat4Array a) (d.toFloat4Array b))

def callFunction (name : String) (a b : ArrayType F) : Except String R :=
  if name = "l2sq_dist" then arrayDist d .l2sq (d.asReals a) (d.asReals b)
  else if name = "cos_dist" then arrayDist d .cos (d.asReals a) (d.asReals b)
  else if name = "hamming_dist" then
    match a, b with
    | .integers _, .integers _ => arrayDist d .hamming a b
    | _, _ => .error "function does not exist"
  else .error "function does not exist"

def procedure (operator : String) : String :=
  if operator = "<->" then "l2sq_dist"
  else if operator = "<=>" then "cos_dist"
  else if operator = "<+>" then "hamming_dist"
  else ""

structure Row (F : Type) where
  id : String
  v : ArrayType F
  deriving DecidableEq

def truthKey (metric : UMetricKind) (tmp tmp2 : Row F) : Except String R :=
  callFunction d metric.sqlFunction tmp.v tmp2.v

/-- What `calculate_ground_truth` may store for a row of the sample. -/
def Stored (metric : UMetricKind) (rows : List (Row F)) (k : ℕ) (tmp : Row F)
    (entry : List F × List String) : Prop :=
  entry.1 = d.toFloat4Array tmp.v ∧
    ∃ neighbors, Answers (truthKey d metric tmp) rows k neighbors ∧ entry.2 = neighbors.map Row.id

def recallKey (query : List F) (row : Row F) : Except String R :=
  callFunction d (procedure "<->") (.reals query) row.v

def queryRecall (neighbors rows : List String) : ℚ :=
  ((neighbors.toFinset ∩ rows.toFinset).card : ℚ) / (neighbors.toFinset.card : ℚ) * 100

end Queries

theorem queryRecall_eq_hundred_iff {neighbors rows : List String} (h : neighbors ≠ []) :
    queryRecall neighbors rows = 100 ↔ ∀ id ∈ neighbors, id ∈ rows := by
  have hcard : (neighbors.toFinset.card : ℚ) ≠ 0 := by
    rw [Nat.cast_ne_zero, Finset.card_ne_zero, List.toFinset_nonempty_iff]
    exact h
  have hall : (neighbors.toFinset ∩ rows.toFinset).card = neighbors.toFinset.card ↔
      ∀ id ∈ neighbors, id ∈ rows := by
    constructor
    · intro heq id hid
      have hinter := Finset.eq_of_subset_of_card_le Finset.inter_subset_left heq.ge
      exact List.mem_toFinset.mp (Finset.inter_eq_left.mp hinter (List.mem_toFinset.mpr hid))
    · intro hsub
      rw [Finset.inter_eq_left.mpr fun id hid =>
        List.mem_toFinset.mpr (hsub id (List.mem_toFinset.mp hid))]
  rw [← hall, ← @Nat.cast_inj ℚ, queryRecall]
  constructor
  · intro heq
    field_simp at heq
    linarith
  · intro heq
    rw [heq, div_self hcard, one_mul]

section Exact
variable {F R : Type}

theorem procedure_sqlOperator (metric : UMetricKind) :
    procedure metric.sqlOperator = metric.sqlFunction := by
  cases metric <;> rfl

theorem recallKey_eq_truthKey (d : Distances F R) (query : Row F) :
    recallKey d (d.toFloat4Array query.v) = truthKey d .l2sq query := by
  funext row
  change callFunction d (procedure UMetricKind.l2sq.sqlOperator) (d.asReals query.v) row.v = _
  rw [procedure_sqlOperator]
  rfl

variable [LinearOrder R] {d : Distances F R} {metric : UMetricKind} {rows : List (Row F)} {k : ℕ}
  {query : Row F} {entry : List F × List String} {answer : List (Row F)}

theorem Stored.recallKey_eq (h : Stored d metric rows k query entry) :
    recallKey d entry.1 = truthKey d .l2sq query := by
  rw [h.1, recallKey_eq_truthKey]

theorem Stored.recall_iff (hstored : Stored d metric rows k query entry)
    (hids : (rows.map Row.id).Nodup) (hquery : query ∈ rows) (hk : 1 ≤ k)
    (hanswer : Answers (recallKey d entry.1) rows k answer)
    (htruth : NoTies (truthKey d metric query) rows) (hrecall : NoTies (recallKey d entry.1) rows) :
    queryRecall entry.2 (answer.map Row.id) = 100 ↔
      ∀ row ∈ rows, rank (truthKey d metric query) rows row < k →
        rank (truthKey d .l2sq query) rows row < k := by
  rw [hstored.recallKey_eq] at hanswer hrecall
  obtain ⟨_, neighbors, hneighbors, hentry⟩ := hstored
  have hne : entry.2 ≠ [] := by
    rw [hentry, Ne, List.map_eq_nil_iff]
    exact hneighbors.ne_nil (List.ne_nil_of_mem hquery) hk
  have hinj := List.inj_on_of_nodup_map hids
  rw [queryRecall_eq_hundred_iff hne, hentry, List.forall_mem_map]
  constructor
  · intro hall row hrow hnear
    have hmem := hall row ((hneighbors.mem_iff htruth row).mpr ⟨hrow, hnear⟩)
    obtain ⟨row', hrow', hid⟩ := List.mem_map.mp hmem
    rw [hinj (hanswer.subset hrow') hrow hid] at hrow'
    exact ((hanswer.mem_iff hrecall row).mp hrow').2
  · intro hnear row hrow
    obtain ⟨hmem, hrank⟩ := (hneighbors.mem_iff htruth row).mp hrow
    exact List.mem_map_of_mem ((hanswer.mem_iff hrecall row).mpr ⟨hmem, hnear row hmem hrank⟩)

/-- A query of the sample without ties that the database answers exactly. -/
structure ExactQuery (d : Distances F R) (metric : UMetricKind) (rows : List (Row F)) (k : ℕ)
    (query : Row F) (entry : List F × List String) (answer : List (Row F)) : Prop where
  ids_nodup : (rows.map Row.id).Nodup
  mem_rows : query ∈ rows
  one_le : 1 ≤ k
  stored : Stored d metric rows k query entry
  answers : Answers (recallKey d entry.1) rows k answer
  truth_noTies : NoTies (truthKey d metric query) rows
  recall_noTies : NoTies (recallKey d entry.1) rows

/-- A query that the database answers exactly has recall 100 exactly if the rows that are
    nearest by the metric are nearest by the squared distance, too. -/
theorem exact_recall_iff (h : ExactQuery d metric rows k query entry answer) :
    (queryRecall entry.2 (answer.map Row.id) = 100 ↔
      ∀ row ∈ rows, rank (truthKey d metric query) rows row < k →
        rank (truthKey d .l2sq query) rows row < k) ∧
      (metric = .l2sq → queryRecall entry.2 (answer.map Row.id) = 100) := by
  have hiff :=
    h.stored.recall_iff h.ids_nodup h.mem_rows h.one_le h.answers h.truth_noTies h.recall_noTies
  refine ⟨hiff, ?_⟩
  rintro rfl
  exact hiff.mpr fun _ _ hnear => hnear

end Exact

def differingBits (x y : ℤ) : ℕ :=
  (List.range 32).countP (BitVec.ofInt 32 x ^^^ BitVec.ofInt 32 y).getLsbD

/-- Distances computed exactly; the cosine is exact where the norms are rational. -/
def exactDistances : Distances ℚ ℚ where
  toReal x := x
  l2sq xs ys := (List.zipWith (fun x y => (x - y) ^ 2) xs ys).sum
  cos xs ys :=
    let dot := fun us vs : List ℚ => (List.zipWith (· * ·) us vs).sum
    1 - dot xs ys / Rat.sqrt (dot xs xs * dot ys ys)
  hamming xs ys := (List.zipWith differingBits xs ys).sum

def east : Row ℚ := ⟨"(0,1)", .reals [1, 0]⟩

def far : Row ℚ := ⟨"(0,2)", .reals [8, 6]⟩

def steep : Row ℚ := ⟨"(0,3)", .reals [3, 4]⟩

def zeroBits : Row ℚ := ⟨"(0,1)", .integers [0]⟩

def oneBit : Row ℚ := ⟨"(0,2)", .integers [8]⟩

def threeBits : Row ℚ := ⟨"(0,3)", .integers [7]⟩

theorem cos_ranked :
    Ranked (truthKey exactDistances .cos east) [east, far, steep]
      [(0, east), (1 / 5, far), (2 / 5, steep)] :=
  ⟨.refl _, by decide +kernel, by decide +kernel⟩

theorem l2sq_ranked :
    Ranked (truthKey exactDistances .l2sq east) [east, far, steep]
      [(0, east), (20, steep), (85, far)] :=
  ⟨by decide +kernel, by decide +kernel, by decide +kernel⟩

theorem hamming_ranked :
    Ranked (truthKey exactDistances .hamming zeroBits) [zeroBits, oneBit, threeBits]
    [(0, zeroBits), (1, oneBit), (3, threeBits)] :=
  ⟨.refl _, by decide +kernel, by decide +kernel⟩

theorem l2sq_bits_ranked :
    Ranked (truthKey exactDistances .l2sq zeroBits) [zeroBits, oneBit, threeBits]
    [(0, zeroBits), (49, threeBits), (64, oneBit)] :=
  ⟨by decide +kernel, by decide +kernel, by decide +kernel⟩

theorem exactQuery_of_ranked {F R : Type} [LinearOrder R] {d : Distances F R} {metric : UMetricKind}
    {rows : List (Row F)} {k : ℕ} {query : Row F} {sorted sorted' : List (R × Row F)}
    (hids : (rows.map Row.id).Nodup) (hquery : query ∈ rows) (hk : 1 ≤ k)
    (htruth : Ranked (truthKey d metric query) rows sorted)
    (hrecall : Ranked (truthKey d .l2sq query) rows sorted') :
    ExactQuery d metric rows k query
      (d.toFloat4Array query.v, ((sorted.take k).map Prod.snd).map Row.id)
        ((sorted'.take k).map Prod.snd) :=
  ⟨hids, hquery, hk, ⟨rfl, _, htruth.answers k, rfl⟩, hrecall.answers k, htruth.noTies,
    hrecall.noTies⟩

theorem east_recall :
    ExactQuery exactDistances .l2sq [east, far, steep] 2 east ([1, 0], ["(0,1)", "(0,3)"])
      [east, steep] ∧
      queryRecall ["(0,1)", "(0,3)"] ([east, steep].map Row.id) = 100 := by
  have h : ExactQuery exactDistances .l2sq [east, far, steep] 2 east
      ([1, 0], ["(0,1)", "(0,3)"]) [east, steep] :=
    exactQuery_of_ranked (by decide) (by decide +kernel) (by decide) l2sq_ranked l2sq_ranked
  exact ⟨h, (exact_recall_iff h).2 rfl⟩

/-- By the cosine `far` is nearer to `east` than `steep` is, and one bit is nearer to zero
    than three are; by the squared distance it is the other way round. -/
theorem misranked :
    (ExactQuery exactDistances .cos [east, far, steep] 2 east
      ([1, 0], ["(0,1)", "(0,2)"]) [east, steep] ∧
      queryRecall ["(0,1)", "(0,2)"] ([east, steep].map Row.id) = 50) ∧
    ExactQuery exactDistances .hamming [zeroBits, oneBit, threeBits] 2 zeroBits
      ([0], ["(0,1)", "(0,2)"])
        [zeroBits, threeBits] ∧
      queryRecall ["(0,1)", "(0,2)"] ([zeroBits, threeBits].map Row.id) = 50 := by
  refine ⟨⟨?_, by decide +kernel⟩, ?_, by decide +kernel⟩
  · exact exactQuery_of_ranked (by decide) (by decide +kernel) (by decide) cos_ranked l2sq_ranked
  · exact exactQuery_of_ranked (by decide) (by decide +kernel) (by decide) hamming_ranked
      l2sq_bits_ranked

end Lantern.RecallQueries
