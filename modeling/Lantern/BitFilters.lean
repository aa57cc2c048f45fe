import Mathlib.Tactic

set_option autoImplicit false

/-!
# Filters of bits

A bitmap is a list of words. An item of a filter stands for some places in the bitmap:
it is put in by setting the bits there, and it is found if all of them are set. What is
found in a bitmap filled from nothing is what the items in it cover together.
-/
namespace Lantern.BitFilters

variable {w : ℕ}

def testBit (words : List (BitVec w)) (i : ℕ) : Bool := (words[i / w]?.getD 0).getLsbD (i % w)

def setBit (words : List (BitVec w)) (i : ℕ) : List (BitVec w) :=
  words.modify (i / w) fun word => word ||| BitVec.twoPow w (i % w)

def insert (words : List (BitVec w)) (places : List ℕ) : List (BitVec w) :=
  places.foldl setBit words

def contains (words : List (BitVec w)) (places : List ℕ) : Bool := places.all (testBit words)

variable {words : List (BitVec w)}

@[simp] theorem length_setBit (words : List (BitVec w)) (i : ℕ) :
    (setBit words i).length = words.length :=
  List.length_modify ..

@[simp] theorem length_insert (words : List (BitVec w)) (places : List ℕ) :
    (insert words places).length = words.length := by
  unfold insert
  induction places generalizing words with
  | nil => rfl
  | cons i places ih => rw [List.foldl_cons, ih, length_setBit]

@[simp] theorem length_foldl_insert (words : List (BitVec w)) (items : List (List ℕ)) :
    (items.foldl insert words).length = words.length := by
  induction items generalizing words with
  | nil => rfl
  | cons item items ih => rw [List.foldl_cons, ih, length_insert]

theorem testBit_setBit {i : ℕ} (hi : i < w * words.length) (j : ℕ) :
    testBit (setBit words i) j = true ↔ testBit words j = true ∨ j = i := by
  have hw : 0 < w := Nat.pos_of_mul_pos_right (Nat.zero_lt_of_lt hi)
  have hword : i / w < words.length := Nat.div_lt_of_lt_mul hi
  unfold testBit setBit
  rw [List.getElem?_modify]
  by_cases hsame : i / w = j / w
  · -- in the same word the places differ by their remainders
    have hplace : j % w = i % w ↔ j = i := by
      constructor
      · intro hmod
        rw [← Nat.div_add_mod j w, ← hsame, hmod, Nat.div_add_mod]
      · rintro rfl
        rfl
    have hmod : j % w < w := Nat.mod_lt j hw
    rw [← hsame, List.getElem?_eq_getElem hword]
    simp [hplace, hmod]
  · have hne : j ≠ i := by
      rintro rfl
      exact hsame rfl
    simp [hne, hsame]

theorem testBit_insert {places : List ℕ} (hplaces : ∀ i ∈ places, i < w * words.length) (j : ℕ) :
    testBit (insert words places) j = true ↔ testBit words j = true ∨ j ∈ places := by
  unfold insert
  induction places generalizing words with
  | nil => simp
  | cons i places ih =>
    obtain ⟨hi, hrest⟩ := List.forall_mem_cons.mp hplaces
    rw [List.foldl_cons, ih (by simpa using hrest), testBit_setBit hi, List.mem_cons, or_assoc]

theorem testBit_foldl_insert {items : List (List ℕ)}
    (hitems : ∀ item ∈ items, ∀ i ∈ item, i < w * words.length) (j : ℕ) :
    testBit (items.foldl insert words) j = true ↔ testBit words j = true ∨
      ∃ item ∈ items, j ∈ item := by
  induction items generalizing words with
  | nil => simp
  | cons item items ih =>
    obtain ⟨hitem, hrest⟩ := List.forall_mem_cons.mp hitems
    rw [List.foldl_cons, ih (by simpa using hrest), testBit_insert hitem,
      List.exists_mem_cons_iff, or_assoc]

theorem testBit_replicate (n j : ℕ) : testBit (List.replicate n (0 : BitVec w)) j = false := by
  unfold testBit
  rw [List.getElem?_replicate]
  split_ifs <;> simp

theorem contains_foldl_insert {n : ℕ} {items : List (List ℕ)}
    (hitems : ∀ item ∈ items, ∀ i ∈ item, i < w * n) {places : List ℕ} :
    contains (items.foldl insert (List.replicate n (0 : BitVec w))) places = true ↔
      ∀ i ∈ places, ∃ item ∈ items, i ∈ item := by
  have hlength : (List.replicate n (0 : BitVec w)).length = n := List.length_replicate
  rw [contains, List.all_eq_true]
  refine forall₂_congr fun i _ => ?_
  rw [testBit_foldl_insert (by rwa [hlength]), testBit_replicate]
  simp

end Lantern.BitFilters
