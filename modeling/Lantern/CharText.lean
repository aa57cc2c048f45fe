import Mathlib.Data.List.TakeWhile

set_option autoImplicit false

/-!
# Texts between quotes and between separators

Between quotes a quote is written twice. Rust's `split("::")` cuts at every pair of
colons, from left to right.
-/
namespace Lantern.CharText

abbrev Text := List Char

def apostrophe : Char := Char.ofNat 39

def quotation : Char := Char.ofNat 34

def double (q : Char) (text : Text) : Text := text.flatMap fun c => if c = q then [q, q] else [c]

/-- From behind the opening quote: the value, and what follows the closing quote. -/
def readQuoted (q : Char) : Text → Option (Text × Text)
  | [] => none
  | [c] => if c = q then some ([], []) else none
  | c :: d :: cs =>
    if c = q then
      if d = q then (readQuoted q cs).map fun r => (q :: r.1, r.2) else some ([], d :: cs)
    else (readQuoted q (d :: cs)).map fun r => (c :: r.1, r.2)

variable {follow : Text}

section Quoted
variable {q : Char}

theorem readQuoted_close (h : follow.head? ≠ some q) :
    readQuoted q (q :: follow) = some ([], follow) := by
  cases follow with
  | nil => rw [readQuoted, if_pos rfl]
  | cons d cs => rw [readQuoted, if_pos rfl, if_neg fun hd => h (by rw [hd, List.head?_cons])]

theorem readQuoted_twice (cs : Text) : readQuoted q (q :: q :: cs) = (readQuoted q cs).map fun r =>
      (q :: r.1, r.2) := by
  rw [readQuoted, if_pos rfl, if_pos rfl]

theorem readQuoted_plain {c : Char} (h : c ≠ q) (cs : Text) :
    readQuoted q (c :: cs) = (readQuoted q cs).map fun r => (c :: r.1, r.2) := by
  cases cs with
  | nil =>
    rw [readQuoted.eq_2, if_neg h]
    rfl
  | cons d cs => rw [readQuoted, if_neg h]

theorem readQuoted_append {text : Text} (htext : q ∉ text) (h : follow.head? ≠ some q) :
    readQuoted q (text ++ q :: follow) = some (text, follow) := by
  induction text with
  | nil => exact readQuoted_close h
  | cons c text ih =>
    rw [List.mem_cons, not_or] at htext
    rw [List.cons_append, readQuoted_plain (Ne.symm htext.1), ih htext.2]
    rfl

theorem readQuoted_double (text : Text) (h : follow.head? ≠ some q) :
    readQuoted q (double q text ++ q :: follow) = some (text, follow) := by
  induction text with
  | nil => exact readQuoted_close h
  | cons c text ih =>
    rw [double, List.flatMap_cons, ← double, List.append_assoc]
    by_cases hc : c = q
    · rw [if_pos hc, List.cons_append, List.cons_append, List.nil_append, readQuoted_twice, ih, hc]
      rfl
    · rw [if_neg hc, List.cons_append, List.nil_append, readQuoted_plain hc, ih]
      rfl

theorem length_readQuoted {text value rest : Text} (h : readQuoted q text = some (value, rest)) :
    text.length = value.length + value.count q + 1 + rest.length := by
  fun_induction readQuoted q text generalizing value rest with
  | case1 => cases h
  | case2 =>
    cases h
    rfl
  | case3 c hc => cases h
  | case4 cs ih =>
    obtain ⟨r, hr, heq⟩ := Option.map_eq_some_iff.mp h
    cases heq
    have hlength := ih hr
    simp only [List.length_cons, List.count_cons_self]
    omega
  | case5 d cs hd =>
    cases h
    simp only [List.length_cons, List.length_nil, List.count_nil]
    omega
  | case6 c d cs hc ih =>
    obtain ⟨r, hr, heq⟩ := Option.map_eq_some_iff.mp h
    cases heq
    have hlength := ih hr
    rw [List.count_cons_of_ne hc]
    simp only [List.length_cons] at hlength ⊢
    omega

end Quoted

def splitColons : Text → List Text
  | [] => [[]]
  | ':' :: ':' :: cs => [] :: splitColons cs
  | c :: cs =>
    match splitColons cs with
    | [] => [[c]]
    | part :: parts => (c :: part) :: parts

theorem splitColons_ne_nil (cs : Text) : splitColons cs ≠ [] := by
  unfold splitColons
  split
  · simp
  · simp
  · split <;> simp

theorem splitColons_cons {c : Char} (hc : c ≠ ':') (cs : Text) :
    splitColons (c :: cs) = (c :: (splitColons cs).headD []) :: (splitColons cs).tail := by
  rw [splitColons]
  · cases h : splitColons cs with
    | nil => exact absurd h (splitColons_ne_nil cs)
    | cons part parts => rfl
  · intro cs' h
    exact absurd h hc

theorem splitColons_separated {part : Text} (hpart : ':' ∉ part) (text : Text) :
    splitColons (part ++ ':' :: ':' :: text) = part :: splitColons text := by
  induction part with
  | nil => rfl
  | cons c cs ih =>
    obtain ⟨hc, hcs⟩ := not_or.mp (List.mem_cons.not.mp hpart)
    rw [List.cons_append, splitColons_cons (Ne.symm hc), ih hcs]
    rfl

end Lantern.CharText
