import Mathlib.Data.Nat.Digits.Defs
import Lantern.ByteText

set_option autoImplicit false

/-!
# Lists of integers as text

Integers are printed in decimal, and lists of them in braces with commas between.
Reading what was printed gives back the list.
-/
namespace Lantern.DecimalText
open ByteText

def MINUS : UInt8 := 45
def LBRACE : UInt8 := 123
def RBRACE : UInt8 := 125

def digitByte (d : ℕ) : UInt8 := UInt8.ofNat (48 + d)

def digitValue (c : UInt8) : ℕ := c.toNat - 48

def isDigit (c : UInt8) : Bool := 48 ≤ c.toNat && c.toNat ≤ 57

def printNat (n : ℕ) : Text := if n = 0 then [48] else (Nat.digits 10 n).reverse.map digitByte

def readNat (t : Text) : Option ℕ :=
  if t ≠ [] ∧ t.all isDigit = true then some (t.foldl (fun v c => v * 10 + digitValue c) 0)
    else none

def printInt : ℤ → Text
  | .ofNat n => printNat n
  | .negSucc n => MINUS :: printNat (n + 1)

def readInt : Text → Option ℤ
  | [] => none
  | c :: t =>
    if c = MINUS then (readNat t).map fun n => -(n : ℤ) else (readNat (c :: t)).map Int.ofNat

theorem toNat_digitByte {d : ℕ} (h : d < 10) : (digitByte d).toNat = 48 + d := by
  rw [digitByte, UInt8.toNat_ofNat']
  omega

theorem isDigit_digitByte {d : ℕ} (h : d < 10) : isDigit (digitByte d) = true := by
  rw [isDigit, toNat_digitByte h]
  simp
  omega

theorem printNat_ne_nil (n : ℕ) : printNat n ≠ [] := by
  unfold printNat
  split_ifs with h
  · exact List.cons_ne_nil _ _
  · simpa using Nat.digits_ne_nil_iff_ne_zero.mpr h

theorem printNat_digits (n : ℕ) : ∀ c ∈ printNat n, isDigit c = true := by
  unfold printNat
  split_ifs with h
  · simp [isDigit]
  · intro c hc
    obtain ⟨d, hd, rfl⟩ := List.mem_map.mp hc
    exact isDigit_digitByte (Nat.digits_lt_base (by decide) (List.mem_reverse.mp hd))

theorem foldl_digits {ds : List ℕ} (h : ∀ d ∈ ds, d < 10) :
    (ds.reverse.map digitByte).foldl (fun v c => v * 10 + digitValue c) 0 = Nat.ofDigits 10 ds := by
  induction ds with
  | nil => rfl
  | cons d ds ih =>
    obtain ⟨hd, hds⟩ := List.forall_mem_cons.mp h
    have hvalue : digitValue (digitByte d) = d := by
      rw [digitValue, toNat_digitByte hd, Nat.add_sub_cancel_left]
    rw [List.reverse_cons, List.map_append, List.foldl_append, ih hds, List.map_singleton,
      List.foldl_cons, List.foldl_nil, hvalue, Nat.ofDigits_cons]
    ring

theorem readNat_printNat (n : ℕ) : readNat (printNat n) = some n := by
  rw [readNat, if_pos ⟨printNat_ne_nil n, List.all_eq_true.mpr (printNat_digits n)⟩]
  congr 1
  unfold printNat
  split_ifs with h
  · exact h.symm
  · rw [foldl_digits fun d hd => Nat.digits_lt_base (by decide) hd, Nat.ofDigits_digits]

theorem isDigit_ne {c d : UInt8} (hc : isDigit c = true) (hd : isDigit d = false) : c ≠ d := by
  rintro rfl
  rw [hc] at hd
  cases hd

theorem readInt_printInt (z : ℤ) : readInt (printInt z) = some z := by
  cases z with
  | ofNat n =>
    have hread := readNat_printNat n
    have hdigits := printNat_digits n
    rw [printInt]
    cases htext : printNat n with
    | nil => exact absurd htext (printNat_ne_nil n)
    | cons c t =>
      rw [htext] at hread hdigits
      rw [readInt, if_neg (isDigit_ne (hdigits c List.mem_cons_self) (by decide)), hread]
      rfl
  | negSucc n =>
    rw [printInt, readInt, if_pos rfl, readNat_printNat]
    rfl

def printList (xs : List ℤ) : Text := LBRACE :: ([COMMA].intercalate (xs.map printInt) ++ [RBRACE])

def readItems (t : Text) : Option (List ℤ) :=
  if t = [] then some [] else (t.splitOn COMMA).mapM readInt

def readList : Text → Option (List ℤ)
  | [] => none
  | c :: t => if c = LBRACE ∧ t.getLast? = some RBRACE then readItems t.dropLast else none

theorem printInt_ne_nil (z : ℤ) : printInt z ≠ [] := by
  cases z with
  | ofNat n => exact printNat_ne_nil n
  | negSucc n => exact List.cons_ne_nil _ _

theorem comma_notMem_printInt (z : ℤ) : COMMA ∉ printInt z := by
  have hdigits : ∀ n, COMMA ∉ printNat n := fun n h => absurd (printNat_digits n _ h) (by decide)
  cases z with
  | ofNat n => exact hdigits n
  | negSucc n =>
    intro h
    rcases List.mem_cons.mp h with h | h
    · exact absurd h (by decide)
    · exact hdigits _ h

theorem intercalate_ne_nil {x : UInt8} {first : Text} {rest : List Text} (h : first ≠ []) :
    [x].intercalate (first :: rest) ≠ [] := by
  cases rest with
  | nil => simpa [List.intercalate] using h
  | cons second rest => simp [List.intercalate, h]

theorem mapM_readInt (xs : List ℤ) : (xs.map printInt).mapM readInt = some xs := by
  induction xs with
  | nil => rfl
  | cons x xs ih => simp [readInt_printInt, ih]

theorem readList_printList (xs : List ℤ) : readList (printList xs) = some xs := by
  rw [printList, readList, if_pos ⟨rfl, List.getLast?_concat⟩, List.dropLast_concat, readItems]
  cases xs with
  | nil => rfl
  | cons x xs =>
    rw [List.map_cons, if_neg (intercalate_ne_nil (printInt_ne_nil x)), ← List.map_cons]
    have hplain : ∀ t ∈ (x :: xs).map printInt, COMMA ∉ t := by
      intro t ht
      obtain ⟨z, -, rfl⟩ := List.mem_map.mp ht
      exact comma_notMem_printInt z
    rw [List.splitOn_intercalate COMMA hplain (by simp), mapM_readInt]

end Lantern.DecimalText
