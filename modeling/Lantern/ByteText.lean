import Mathlib.Data.List.Basic
import Mathlib.Tactic.Linarith

set_option autoImplicit false

/-!
# Texts of bytes

Hexadecimal digits, and bytes that are written as a backslash with a letter.
-/
namespace Lantern.ByteText

abbrev Text := List UInt8

def COMMA : UInt8 := 44
def BACKSLASH : UInt8 := 92

def hexValue (c : UInt8) : Option ℕ :=
  if 48 ≤ c ∧ c ≤ 57 then some (c.toNat - 48)
  else if 97 ≤ c ∧ c ≤ 102 then some (c.toNat - 87)
  else if 65 ≤ c ∧ c ≤ 70 then some (c.toNat - 55)
  else none

theorem hexValue_lt {c : UInt8} {n : ℕ} (h : hexValue c = some n) : n < 16 := by
  unfold hexValue at h
  split_ifs at h with h₁ h₂ h₃
  · have hle : c.toNat ≤ 57 := h₁.2
    cases h
    omega
  · have hle : c.toNat ≤ 102 := h₂.2
    cases h
    omega
  · have hle : c.toNat ≤ 70 := h₃.2
    cases h
    omega

/-- The bytes that have a letter get a backslash and the letter. -/
def backslashed (letters : List (UInt8 × UInt8)) (c : UInt8) : Text :=
  match letters.find? fun e => e.1 = c with
  | some e => [BACKSLASH, e.2]
  | none => [c]

theorem backslashed_cases (letters : List (UInt8 × UInt8)) (c : UInt8) :
    (∃ d, (c, d) ∈ letters ∧ backslashed letters c = [BACKSLASH, d]) ∨
      (∀ e ∈ letters, e.1 ≠ c) ∧ backslashed letters c = [c] := by
  unfold backslashed
  cases hfind : letters.find? fun e => e.1 = c with
  | some e =>
    obtain rfl : e.1 = c := by simpa using List.find?_some hfind
    exact .inl ⟨e.2, List.mem_of_find?_eq_some hfind, rfl⟩
  | none => exact .inr ⟨fun e he => by simpa using List.find?_eq_none.mp hfind e he, rfl⟩

end Lantern.ByteText
