import Mathlib.Tactic.Ring
import Lantern.CharText

set_option autoImplicit false

/-!
# Reading SQL text

The text of a statement is cut into tokens as PostgreSQL does with standard conforming
strings. A string constant goes on after its closing quote if blanks and comments with a
line break among them lead to another quote. A name between double quotes is cut to 63
bytes. The kinds of tokens that are not spelled out here are read by a function that may
be any.
-/
namespace Lantern.SqlLexer
open CharText

def isNewline (c : Char) : Bool := c = Char.ofNat 10 || c = Char.ofNat 13

def isSpace (c : Char) : Bool :=
  c = ' ' || isNewline c || c = Char.ofNat 9 || c = Char.ofNat 11 || c = Char.ofNat 12

/-- From behind a closing quote: what follows the quote with which the constant goes on. The
    arguments before the text say whether a line break was passed and whether the text is
    in a comment. -/
def continuation : Bool → Bool → Text → Option Text
  | _, _, [] => none
  | newline, true, c :: cs =>
    if isNewline c then continuation true false cs else continuation newline true cs
  | newline, false, c :: cs =>
    if isNewline c then continuation true false cs
    else if isSpace c then continuation newline false cs
    else if c = '-' ∧ cs.head? = some '-' then continuation newline true cs
    else if c = apostrophe ∧ newline = true then some cs
    else none

def continued (follow : Text) : Option Text := continuation false false follow

def readStringFuel : ℕ → Text → Option (Text × Text)
  | 0, _ => none
  | n + 1, text =>
    (readQuoted apostrophe text).bind fun r =>
      match continued r.2 with
      | none => some r
      | some more => (readStringFuel n more).map fun s => (r.1 ++ s.1, s.2)

def readString (text : Text) : Option (Text × Text) := readStringFuel (text.length + 1) text

variable {follow rest : Text} {n : ℕ}

theorem length_continuation {newline comment : Bool} {more : Text}
    (h : continuation newline comment follow = some more) : more.length < follow.length := by
  fun_induction continuation newline comment follow with
  | case1 => cases h
  | case2 _ _ _ _ ih | case3 _ _ _ _ ih | case4 _ _ _ _ ih | case5 _ _ _ _ _ ih
  | case6 _ _ _ _ _ _ ih =>
    exact (ih h).trans (Nat.lt_succ_self _)
  | case7 =>
    cases h
    exact Nat.lt_succ_self _
  | case8 => cases h

theorem length_readStringFuel {text value : Text} (h : readStringFuel n text = some (value, rest)) :
    value.length + value.count apostrophe + 1 + rest.length ≤ text.length := by
  induction n generalizing text value rest with
  | zero => cases h
  | succ n ih =>
    rw [readStringFuel] at h
    obtain ⟨r, hr, hrest⟩ := Option.bind_eq_some_iff.mp h
    have hfirst := length_readQuoted hr
    cases hmore : continued r.2 with
    | none =>
      simp only [hmore, Option.some.injEq] at hrest
      rw [hrest] at hfirst
      exact hfirst.ge
    | some more =>
      simp only [hmore] at hrest
      obtain ⟨s, hs, heq⟩ := Option.map_eq_some_iff.mp hrest
      cases heq
      have hshort := length_continuation hmore
      have hsecond := ih hs
      rw [List.length_append, List.count_append]
      omega

theorem readString_double (value : Text) (hquote : follow.head? ≠ some apostrophe)
    (hend : continued follow = none) :
    readString (double apostrophe value ++ apostrophe :: follow) = some (value, follow) := by
  rw [readString, readStringFuel, readQuoted_double value hquote, Option.bind_some]
  simp only [hend]

theorem readString_continued (value value' : Text) {more : Text}
    (hquote : follow.head? ≠ some apostrophe) (hmore : continued follow = some more) :
    readString (double apostrophe value ++ apostrophe :: follow) ≠ some (value', follow) := by
  rw [readString, readStringFuel, readQuoted_double value hquote, Option.bind_some]
  simp only [hmore]
  intro h
  obtain ⟨s, hs, heq⟩ := Option.map_eq_some_iff.mp h
  have hfollow : s.2 = follow := congrArg Prod.snd heq
  have hshort := length_continuation hmore
  have hlength := length_readStringFuel hs
  rw [hfollow] at hlength
  omega

def utf8Length (text : Text) : ℕ := (text.map Char.utf8Size).sum

/-- The longest front of whole characters that has at most so many bytes. -/
def clip : ℕ → Text → Text
  | _, [] => []
  | n, c :: cs => if c.utf8Size ≤ n then c :: clip (n - c.utf8Size) cs else []

def NAMEDATALEN : ℕ := 64

def truncateIdentifier (name : Text) : Text := clip (NAMEDATALEN - 1) name

theorem clip_eq_self_iff (n : ℕ) (text : Text) : clip n text = text ↔ utf8Length text ≤ n := by
  induction text generalizing n with
  | nil => simp [clip, utf8Length]
  | cons c text ih =>
    have hlength : utf8Length (c :: text) = c.utf8Size + utf8Length text := rfl
    rw [clip, hlength]
    split_ifs with hc
    · rw [List.cons_inj_right, ih]
      omega
    · have hlong : ¬ c.utf8Size + utf8Length text ≤ n := by omega
      simp [hlong]

theorem truncateIdentifier_eq_self_iff (name : Text) : truncateIdentifier name = name ↔
      utf8Length name < NAMEDATALEN := by
  rw [truncateIdentifier, clip_eq_self_iff]
  exact Nat.le_sub_one_iff_lt (by decide)

inductive Token where
  /-- A keyword or a name that is not quoted, in lower case. -/
  | word (name : Text)
  | ident (name : Text)
  | string (value : Text)
  | symbol (c : Char)
  | operator (text : Text)
  | other (text : Text)
  deriving DecidableEq, Repr

/-- How the kinds of tokens are read that are not spelled out: numbers, parameters, type
    casts, dollar quotes, strings with a letter before the quote, comments. -/
structure OtherTokens where
  read : Text → Option (Option Token × Text)
  shrinks : ∀ text token rest, read text = some (token, rest) → rest.length < text.length

theorem none_shrinks (text : Text) (token : Option Token) (rest : Text)
    (h : (none : Option (Option Token × Text)) = some (token, rest)) :
    rest.length < text.length := by
  cases h

def noOthers : OtherTokens := ⟨fun _ => none, none_shrinks⟩

def isIdentStart (c : Char) : Bool := c.isAlpha || c = '_' || 128 ≤ c.toNat

def isIdentRest (c : Char) : Bool := isIdentStart c || c.isDigit || c = '$'

def startsQuote : Text → Bool
  | c :: d :: cs =>
    (c.toLower ∈ ['b', 'e', 'n', 'x'] && d = apostrophe) ||
      (c.toLower = 'u' && d = '&' && (cs.head? = some apostrophe || cs.head? = some quotation))
  | _ => false

def isSelf (c : Char) : Bool := c ∈ [',', '(', ')', '[', ']', '.', ';']

def isOperator (c : Char) : Bool :=
  c ∈ ['~', '!', '@', '#', '^', '&', '|', Char.ofNat 96, '?', '+', '-', '*', '/', '%',
    '<', '>', '=']

def plainOperator (text : Text) : Bool := text.all fun c => c ∉ ['+', '-', '*', '/']

section Lexer
variable (others : OtherTokens)

def lexToken : Text → Option (Option Token × Text)
  | [] => none
  | c :: cs =>
    if isSpace c then some (none, cs)
    else if c = apostrophe then (readString cs).map fun r => (some (.string r.1), r.2)
    else if c = quotation then
      (readQuoted quotation cs).bind fun r =>
        if r.1 = [] then none else some (some (.ident (truncateIdentifier r.1)), r.2)
    else if isIdentStart c && !startsQuote (c :: cs) then
      some (some (.word (truncateIdentifier ((c :: cs.takeWhile isIdentRest).map Char.toLower))),
        cs.dropWhile isIdentRest)
    else if isSelf c && !(c = '.' && (cs.head?.any Char.isDigit)) then some (some (.symbol c), cs)
    else if isOperator c && plainOperator (c :: cs.takeWhile isOperator) then
      some (some (.operator (c :: cs.takeWhile isOperator)), cs.dropWhile isOperator)
    else others.read (c :: cs)

def lexFuel : ℕ → Text → Option (List Token)
  | _, [] => some []
  | 0, _ :: _ => none
  | n + 1, c :: cs =>
    (lexToken others (c :: cs)).bind fun r => (lexFuel n r.2).map fun tokens => r.1.toList ++ tokens

def lex (text : Text) : Option (List Token) := lexFuel others text.length text

variable {others}

theorem length_lexToken {text : Text} {token : Option Token}
    (h : lexToken others text = some (token, rest)) :
    rest.length < text.length := by
  cases text with
  | nil => cases h
  | cons c cs =>
    have hdrop : ∀ p : Char → Bool, (cs.dropWhile p).length < (c :: cs).length := fun p =>
      Nat.lt_succ_of_le (List.dropWhile_sublist p).length_le
    rw [lexToken] at h
    split_ifs at h with hspace hstring hident hword hsymbol hoperator
    · cases h
      exact Nat.lt_succ_self _
    · obtain ⟨r, hr, heq⟩ := Option.map_eq_some_iff.mp h
      cases heq
      have hlength := length_readStringFuel hr
      rw [List.length_cons]
      omega
    · obtain ⟨r, hr, hname⟩ := Option.bind_eq_some_iff.mp h
      have hlength := length_readQuoted hr
      split_ifs at hname
      cases hname
      rw [List.length_cons]
      omega
    · cases h
      exact hdrop _
    · cases h
      exact Nat.lt_succ_self _
    · cases h
      exact hdrop _
    · exact others.shrinks _ _ _ h

theorem lexFuel_eq_lexFuel {m : ℕ} {text : Text} (hn : text.length ≤ n) (hm : text.length ≤ m) :
    lexFuel others n text = lexFuel others m text := by
  induction n generalizing m text with
  | zero =>
    rw [List.length_eq_zero_iff.mp (Nat.le_zero.mp hn), lexFuel, lexFuel]
  | succ n ih =>
    cases text with
    | nil => rw [lexFuel, lexFuel]
    | cons c cs =>
      obtain ⟨m, rfl⟩ := Nat.exists_eq_succ_of_ne_zero (Nat.ne_zero_of_lt hm)
      rw [lexFuel, lexFuel]
      cases htoken : lexToken others (c :: cs) with
      | none => rfl
      | some r =>
        have hshort := length_lexToken htoken
        have hsame : lexFuel others n r.2 = lexFuel others m r.2 := ih (by omega) (by omega)
        rw [Option.bind_some, Option.bind_some, hsame]

theorem lex_cons (c : Char) (cs : Text) :
    lex others (c :: cs) =
      (lexToken others (c :: cs)).bind fun r =>
        (lex others r.2).map fun tokens => r.1.toList ++ tokens := by
  rw [lex, List.length_cons, lexFuel]
  cases htoken : lexToken others (c :: cs) with
  | none => rfl
  | some r =>
    have hshort := length_lexToken htoken
    rw [Option.bind_some, Option.bind_some, lex,
      lexFuel_eq_lexFuel (Nat.le_of_lt_succ hshort) (Nat.le_refl r.2.length)]

theorem length_lex {text : Text} {tokens : List Token} (h : lex others text = some tokens) :
    tokens.length ≤ text.length := by
  induction hn : text.length using Nat.strong_induction_on generalizing text tokens with
  | _ n ih =>
    cases text with
    | nil =>
      cases h
      exact Nat.zero_le _
    | cons c cs =>
      rw [lex_cons] at h
      obtain ⟨r, hr, hrest⟩ := Option.bind_eq_some_iff.mp h
      obtain ⟨rest, hlex, rfl⟩ := Option.map_eq_some_iff.mp hrest
      have hshort := length_lexToken hr
      have hlength := ih r.2.length (hn ▸ hshort) hlex rfl
      have hone : r.1.toList.length ≤ 1 := by cases r.1 <;> simp
      rw [List.length_append]
      omega

def lexSteps (others : OtherTokens) : ℕ → Text → Option (List Token × Text)
  | 0, text => some ([], text)
  | n + 1, text =>
    (lexToken others text).bind fun r => (lexSteps others n r.2).map fun s =>
      (r.1.toList ++ s.1, s.2)

theorem lex_of_lexSteps {text : Text} {front : List Token}
    (h : lexSteps others n text = some (front, rest)) :
    lex others text = (lex others rest).map fun tokens => front ++ tokens := by
  induction n generalizing text front with
  | zero =>
    cases h
    simp
  | succ n ih =>
    rw [lexSteps] at h
    obtain ⟨r, hr, hrest⟩ := Option.bind_eq_some_iff.mp h
    obtain ⟨s, hs, heq⟩ := Option.map_eq_some_iff.mp hrest
    cases heq
    cases text with
    | nil => cases hr
    | cons c cs =>
      rw [lex_cons, hr, Option.bind_some, ih hs, Option.map_map]
      refine congrArg (fun f => Option.map f _) (funext fun tokens => ?_)
      exact (List.append_assoc _ _ _).symm

theorem lexSteps_one {text : Text} {token : Token}
    (h : lexToken others text = some (some token, rest)) :
    lexSteps others 1 text = some ([token], rest) := by
  rw [lexSteps, h, Option.bind_some]
  rfl

theorem lex_eq_iff_of_lexSteps {text : Text} {front : List Token}
    (h : lexSteps others n text = some (front, rest)) (tokens : List Token) :
    lex others text = some (front ++ tokens) ↔ lex others rest = some tokens := by
  rw [lex_of_lexSteps h]
  constructor
  · intro hall
    obtain ⟨tokens', hrest, heq⟩ := Option.map_eq_some_iff.mp hall
    rw [hrest, List.append_cancel_left heq]
  · intro hrest
    rw [hrest, Option.map_some]

theorem lexToken_string (cs : Text) :
    lexToken others (apostrophe :: cs) = (readString cs).map fun r =>
      (some (.string r.1), r.2) := rfl

theorem lexToken_ident (cs : Text) :
    lexToken others (quotation :: cs) =
      (readQuoted quotation cs).bind fun r =>
        if r.1 = [] then none else some (some (.ident (truncateIdentifier r.1)), r.2) := rfl

theorem double_of_notMem {q : Char} {text : Text} (h : q ∉ text) : double q text = text := by
  induction text with
  | nil => rfl
  | cons c text ih =>
    obtain ⟨hc, htext⟩ := not_or.mp (List.mem_cons.not.mp h)
    rw [double, List.flatMap_cons, ← double, ih htext, if_neg (Ne.symm hc)]
    rfl

/-- A text that is put between quotes as it is makes a constant of itself, before a rest
    in which every character is a token, exactly if there is no quote in it. -/
theorem lex_constant_iff {tokens : List Token} (hlex : lex others follow = some tokens)
    (hsingle : tokens.length = follow.length) (hquote : follow.head? ≠ some apostrophe)
    (hend : continued follow = none) (value : Text) :
    lex others (apostrophe :: (value ++ apostrophe :: follow)) = some (.string value :: tokens) ↔
      apostrophe ∉ value := by
  rw [lex_cons, lexToken_string]
  constructor
  · intro h
    obtain ⟨r, hr, hrest⟩ := Option.bind_eq_some_iff.mp h
    obtain ⟨s, hs, rfl⟩ := Option.map_eq_some_iff.mp hr
    obtain ⟨rest, htokens, heq⟩ := Option.map_eq_some_iff.mp hrest
    obtain ⟨hvalue, hsame⟩ := List.cons.inj heq
    have hlength := length_readStringFuel hs
    have hmany : rest.length ≤ s.2.length := length_lex htokens
    have hlist : rest = tokens := hsame
    rw [hlist] at hmany
    rw [List.length_append, List.length_cons, Token.string.inj hvalue] at hlength
    exact List.count_eq_zero.mp (by omega)
  · intro h
    have hread := readString_double value hquote hend
    rw [double_of_notMem h] at hread
    rw [hread, Option.map_some, Option.bind_some, hlex]
    rfl

end Lexer

end Lantern.SqlLexer
