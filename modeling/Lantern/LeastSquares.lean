import Mathlib.Tactic
import Mathlib.Data.List.MinMax
import Mathlib.Data.List.FinRange
import Mathlib.Algebra.BigOperators.Fin
import Mathlib.Algebra.Order.BigOperators.Group.Finset

set_option autoImplicit false

/-!
# Squared distances, means and nearest centres

The sum of the squared distances to a point is least at the mean. A scan that keeps the
smaller value finds the first of the least ones. Both together never increase the cost
of an assignment of points to centres: the centres move to the means of their points,
and the points move to their nearest centres.
-/
namespace Lantern.LeastSquares

variable {K ι : Type} [Field K] {d : ℕ}

def sqDist (x y : Fin d → K) : K := ∑ j, (x j - y j) ^ 2

def mean (x : ι → K) (points : List ι) : K := (points.map x).sum / points.length

theorem sum_sq_sub (x : ι → K) (c : K) (points : List ι) :
    (points.map fun i => (x i - c) ^ 2).sum =
      (points.map fun i => x i ^ 2).sum - 2 * c * (points.map x).sum + points.length * c ^ 2 := by
  induction points with
  | nil => simp
  | cons i points ih =>
    simp only [List.map_cons, List.sum_cons, List.length_cons, Nat.cast_add, Nat.cast_one, ih]
    ring

theorem sum_map_sum (f : ι → Fin d → K) (points : List ι) :
    (points.map fun i => ∑ j, f i j).sum = ∑ j, (points.map fun i => f i j).sum := by
  induction points with
  | nil => simp
  | cons i points ih => simp [ih, Finset.sum_add_distrib]

theorem sum_filter_class {n k : ℕ} (a : Fin n → Fin k) (g : Fin k → Fin n → K) :
    ∑ j, (((List.finRange n).filter fun i => a i = j).map (g j)).sum = ∑ i, g (a i) i := by
  have hfilter : ∀ (j : Fin k) (l : List (Fin n)),
      ((l.filter fun i => a i = j).map (g j)).sum =
      (l.map fun i => if a i = j then g j i else 0).sum := by
    intro j l
    induction l with
    | nil => rfl
    | cons i l ih =>
      rw [List.filter_cons]
      by_cases h : a i = j
      · simp [h, ih]
      · simp [h, ih]
  simp only [hfilter, ← Fin.sum_univ_def]
  rw [Finset.sum_comm]
  simp

variable [LinearOrder K] [IsStrictOrderedRing K]

theorem sum_sq_sub_mean_le (x : ι → K) (c : K) (points : List ι) :
    (points.map fun i => (x i - mean x points) ^ 2).sum ≤
    (points.map fun i => (x i - c) ^ 2).sum := by
  by_cases hnil : points = []
  · simp [hnil]
  have hpos : (0 : K) < points.length := by
    exact_mod_cast List.length_pos_iff.mpr hnil
  have hsum : (points.map x).sum = points.length * mean x points := by
    rw [mean, mul_div_cancel₀ _ hpos.ne']
  have hsq : 0 ≤ (points.length : K) * (mean x points - c) ^ 2 := by positivity
  rw [sum_sq_sub, sum_sq_sub, hsum]
  nlinarith [hsq]

theorem sum_sqDist_mean_le (x : ι → Fin d → K) (c : Fin d → K) (points : List ι) :
    (points.map fun i => sqDist (x i) fun j => mean (fun i => x i j) points).sum ≤
      (points.map fun i => sqDist (x i) c).sum := by
  simp only [sqDist, sum_map_sum]
  exact Finset.sum_le_sum fun j _ => sum_sq_sub_mean_le (fun i => x i j) (c j) points

section Scan
variable {L : Type} [LinearOrder L] {k : ℕ}

def FirstLeast (f : Fin k → L) (j : Fin k) : Prop := (∀ l, f j ≤ f l) ∧ ∀ l < j, f j < f l

def scanStep (f : Fin k → L) (best : WithTop L × ℕ) (j : Fin k) : WithTop L × ℕ :=
  if (f j : WithTop L) < best.1 then (f j, j) else best

/-- The scan begins with a value that is larger than all and with some place. -/
def scan (f : Fin k → L) (start : ℕ) : WithTop L × ℕ :=
  (List.finRange k).foldl (scanStep f) (⊤, start)

theorem foldl_scanStep (f : Fin k → L) (start : ℕ) (js : List (Fin k)) :
    js.foldl (scanStep f) (⊤, start) =
      match js.argmin f with
      | none => (⊤, start)
      | some j => (↑(f j), ↑j) := by
  induction js using List.reverseRecOn with
  | nil => rfl
  | append_singleton js j ih =>
    rw [List.foldl_append, ih, List.argmin_concat]
    cases js.argmin f with
    | none => simp [scanStep]
    | some best =>
      simp only [List.foldl_cons, List.foldl_nil, scanStep, WithTop.coe_lt_coe]
      split_ifs <;> rfl

theorem exists_firstLeast (hk : k ≠ 0) (f : Fin k → L) :
    ∃ j, FirstLeast f j ∧ ∀ start, scan f start = (↑(f j), ↑j) := by
  have hne : List.finRange k ≠ [] := by simpa using hk
  obtain ⟨j, hj⟩ := Option.ne_none_iff_exists'.mp (mt (List.argmin_eq_none (f := f)).mp hne)
  obtain ⟨-, hle, hfirst⟩ := List.argmin_eq_some_iff.mp hj
  refine ⟨j, ⟨fun l => hle l (List.mem_finRange l), fun l hl => ?_⟩, fun start => ?_⟩
  · refine lt_of_not_ge fun hge => ?_
    have hindex := hfirst l (List.mem_finRange l) hge
    rw [List.idxOf_finRange, List.idxOf_finRange] at hindex
    exact absurd hl (not_lt.mpr hindex)
  · rw [scan, foldl_scanStep, hj]

end Scan

end Lantern.LeastSquares
