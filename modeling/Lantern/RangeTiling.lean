import Mathlib.Tactic

set_option autoImplicit false

/-!
# Ranges laid end to end

A list of half open ranges tiles `lo … hi` if the first begins at `lo`, each of the
others begins where the one before it ends, and the last ends at `hi`. Then every
number from `lo` up to `hi` is in exactly one of them, and no other number is in any.
-/
namespace Lantern.RangeTiling

structure IdRange where
  start : ℕ
  stop : ℕ
  deriving DecidableEq, Repr

def IdRange.holds (r : IdRange) (n : ℕ) : Bool := decide (r.start ≤ n ∧ n < r.stop)

theorem IdRange.holds_iff {r : IdRange} {n : ℕ} : r.holds n = true ↔ r.start ≤ n ∧ n < r.stop := by
  simp [IdRange.holds]

def hits (rs : List IdRange) (n : ℕ) : ℕ := rs.countP fun r => r.holds n

theorem hits_cons (lo hi : ℕ) (rs : List IdRange) (n : ℕ) :
    hits (⟨lo, hi⟩ :: rs) n = hits rs n + if lo ≤ n ∧ n < hi then 1 else 0 := by
  simp [hits, List.countP_cons, IdRange.holds]

variable {rs : List IdRange} {hi lo : ℕ}

theorem hits_pos_iff {n : ℕ} : 0 < hits rs n ↔ ∃ r ∈ rs, r.holds n = true :=
  List.countP_pos_iff

inductive Tiles : ℕ → ℕ → List IdRange → Prop
  | nil (lo : ℕ) : Tiles lo lo []
  | cons {lo mid hi : ℕ} {rs : List IdRange} : lo ≤ mid → Tiles mid hi rs →
    Tiles lo hi (⟨lo, mid⟩ :: rs)

theorem Tiles.le (h : Tiles lo hi rs) : lo ≤ hi := by
  induction h with
  | nil lo => exact le_rfl
  | cons hle _ ih => exact hle.trans ih

theorem Tiles.append {mid : ℕ} {ts : List IdRange} (h : Tiles lo mid rs) (ht : Tiles mid hi ts) :
    Tiles lo hi (rs ++ ts) := by
  induction h with
  | nil lo => exact ht
  | cons hle _ ih => exact .cons hle (ih ht)

theorem Tiles.single (h : lo ≤ hi) : Tiles lo hi [⟨lo, hi⟩] := .cons h (.nil hi)

theorem Tiles.hits_eq (h : Tiles lo hi rs) (n : ℕ) :
    hits rs n = if lo ≤ n ∧ n < hi then 1 else 0 := by
  induction h with
  | nil lo =>
    rw [if_neg (by omega)]
    rfl
  | cons hle hrest ih =>
    rw [hits_cons, ih]
    have := hrest.le
    split_ifs <;> omega

theorem Tiles.exists_iff (h : Tiles lo hi rs) (n : ℕ) :
    (∃ r ∈ rs, r.holds n = true) ↔ lo ≤ n ∧ n < hi := by
  rw [← hits_pos_iff, h.hits_eq n]
  split_ifs with hn
  · exact iff_of_true Nat.one_pos hn
  · exact iff_of_false (Nat.lt_irrefl 0) hn

theorem Tiles.flatMap_range {marks : ℕ → ℕ} {group : ℕ → List IdRange} {n : ℕ}
    (h : ∀ i < n, Tiles (marks i) (marks (i + 1)) (group i)) :
    Tiles (marks 0) (marks n) ((List.range n).flatMap group) := by
  induction n with
  | zero => exact .nil _
  | succ n ih =>
    rw [List.range_succ, List.flatMap_append, List.flatMap_singleton]
    exact (ih fun i hi => h i (hi.trans (Nat.lt_succ_self n))).append (h n (Nat.lt_succ_self n))

theorem tiles_chunks (start size n : ℕ) :
    Tiles start (start + n * size)
      ((List.range n).map fun i => ⟨start + i * size, start + i * size + size⟩) := by
  induction n with
  | zero =>
    rw [Nat.zero_mul]
    exact .nil _
  | succ n ih =>
    rw [List.range_succ, List.map_append, Nat.succ_mul, ← Nat.add_assoc]
    exact ih.append (.single (Nat.le_add_right _ _))

end Lantern.RangeTiling
