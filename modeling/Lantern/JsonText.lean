import Mathlib.Tactic
import Lantern.ByteText

set_option autoImplicit false

/-!
# JSON texts

Values as bytes, the compact text of a value, and a reader. A string is printed with
escapes for quotes, backslashes and control bytes; the reader takes every escape and
white space between tokens, and refuses the zero byte. A text without escapes is read
back as its value, and no text of a value is shorter than the compact one.
-/
namespace Lantern.JsonText
open ByteText

def QUOTE : UInt8 := 34
def COLON : UInt8 := 58
def LBRACKET : UInt8 := 91
def RBRACKET : UInt8 := 93
def LBRACE : UInt8 := 123
def RBRACE : UInt8 := 125

def isDigit (c : UInt8) : Bool := 48 ≤ c && c ≤ 57

def isNumberByte (c : UInt8) : Bool :=
  isDigit c || c == 43 || c == 45 || c == 46 || c == 69 || c == 101

def isExponent : Text → Bool
  | [] => true
  | c :: cs =>
    let digits := if cs.head? = some 43 ∨ cs.head? = some 45 then cs.tail else cs
    (c == 69 || c == 101) && !digits.isEmpty && digits.all isDigit

def isFraction (t : Text) : Bool :=
  if t.head? = some 46 then
    !(t.tail.takeWhile isDigit).isEmpty && isExponent (t.tail.dropWhile isDigit)
  else isExponent t

def isMagnitude : Text → Bool
  | [] => false
  | c :: cs => if c = 48 then isFraction cs else isDigit c && isFraction (cs.dropWhile isDigit)

def isNumber (t : Text) : Bool :=
  t.all isNumberByte && isMagnitude (if t.head? = some 45 then t.tail else t)

/-- A number, known by its text. -/
structure Number where
  text : Text
  valid : isNumber text = true
  deriving DecidableEq

def readNumber (t : Text) : Option Number := if h : isNumber t = true then some ⟨t, h⟩ else none

theorem readNumber_text (n : Number) : readNumber n.text = some n := dif_pos n.valid

variable {c : UInt8} {items : List Text} {s t : Text} {n : ℕ}

theorem readNumber_eq_some {n : Number} (h : readNumber t = some n) : n.text = t := by
  unfold readNumber at h
  split at h
  · cases h
    rfl
  · cases h

theorem Number.all_bytes (n : Number) : ∀ c ∈ n.text, isNumberByte c = true := by
  have h := n.valid
  rw [isNumber, Bool.and_eq_true] at h
  exact List.all_eq_true.mp h.1

theorem Number.text_ne_nil (n : Number) : n.text ≠ [] := by
  intro h
  have hvalid := n.valid
  rw [h] at hvalid
  cases hvalid

inductive Json where
  | null
  | bool (b : Bool)
  | num (n : Number)
  | str (s : Text)
  | arr (elements : List Json)
  | obj (members : List (Text × Json))

def hexDigit (c : UInt8) : UInt8 := if c < 10 then 48 + c else 87 + c

def letters : List (UInt8 × UInt8) :=
  [(QUOTE, QUOTE), (BACKSLASH, BACKSLASH), (8, 98), (9, 116), (10, 110), (12, 102), (13, 114)]

def escapeByte (c : UInt8) : Text :=
  if c < 32 ∧ backslashed letters c = [c] then [BACKSLASH, 117, 48, 48, hexDigit (c / 16),
    hexDigit (c % 16)]
  else backslashed letters c

def printString (s : Text) : Text := QUOTE :: (s.flatMap escapeByte ++ [QUOTE])

def wordNull : Text := [110, 117, 108, 108]
def wordTrue : Text := [116, 114, 117, 101]
def wordFalse : Text := [102, 97, 108, 115, 101]

def printBool (b : Bool) : Text := if b then wordTrue else wordFalse

def printItems (close : UInt8) (items : List Text) : Text := [COMMA].intercalate items ++ [close]

theorem sizeOf_element_lt {v : Json} {elements : List Json} (h : v ∈ elements) :
    sizeOf v < sizeOf (Json.arr elements) := by
  have := List.sizeOf_lt_of_mem h
  simp only [Json.arr.sizeOf_spec]
  omega

theorem sizeOf_member_lt {m : Text × Json} {members : List (Text × Json)} (h : m ∈ members) :
    sizeOf m.2 < sizeOf (Json.obj members) := by
  obtain ⟨k, v⟩ := m
  have := List.sizeOf_lt_of_mem h
  simp only [Json.obj.sizeOf_spec, Prod.mk.sizeOf_spec] at this ⊢
  omega

def Json.print : Json → Text
  | .null => wordNull
  | .bool b => printBool b
  | .num n => n.text
  | .str s => printString s
  | .arr elements => LBRACKET :: printItems RBRACKET (elements.map fun v => v.print)
  | .obj members =>
    LBRACE :: printItems RBRACE (members.map fun m => printString m.1 ++ COLON :: m.2.print)
termination_by v => sizeOf v
decreasing_by
  · exact sizeOf_element_lt ‹v ∈ elements›
  · exact sizeOf_member_lt ‹m ∈ members›

def printMember (m : Text × Json) : Text := printString m.1 ++ COLON :: m.2.print

theorem print_arr (elements : List Json) :
    (Json.arr elements).print = LBRACKET :: printItems RBRACKET (elements.map Json.print) := by
  rw [Json.print]

theorem print_obj (members : List (Text × Json)) :
    (Json.obj members).print = LBRACE :: printItems RBRACE (members.map printMember) := by
  rw [Json.print]
  rfl

@[elab_as_elim]
theorem Json.value_induction {motive : Json → Prop} (null : motive .null)
    (bool : ∀ b, motive (.bool b)) (num : ∀ n, motive (.num n)) (str : ∀ s, motive (.str s))
    (arr : ∀ elements, (∀ v ∈ elements, motive v) → motive (.arr elements))
    (obj : ∀ members, (∀ m ∈ members, motive m.2) → motive (.obj members)) : ∀ v, motive v
  | .null => null
  | .bool b => bool b
  | .num n => num n
  | .str s => str s
  | .arr elements => arr elements fun v _ => value_induction null bool num str arr obj v
  | .obj members => obj members fun m _ => value_induction null bool num str arr obj m.2
termination_by v => sizeOf v
decreasing_by
  · exact sizeOf_element_lt ‹v ∈ elements›
  · exact sizeOf_member_lt ‹m ∈ members›

def isSpace (c : UInt8) : Bool := c == 32 || c == 9 || c == 10 || c == 13

def skipSpace (t : Text) : Text := t.dropWhile isSpace

def simpleEscape (c : UInt8) : Option UInt8 :=
  if c = QUOTE ∨ c = BACKSLASH ∨ c = 47 then some c
  else if c = 98 then some 8
  else if c = 102 then some 12
  else if c = 110 then some 10
  else if c = 114 then some 13
  else if c = 116 then some 9
  else none

def readUnit : Text → Option (ℕ × Text)
  | a :: b :: c :: d :: rest =>
    match hexValue a, hexValue b, hexValue c, hexValue d with
    | some a, some b, some c, some d => some (((a * 16 + b) * 16 + c) * 16 + d, rest)
    | _, _, _, _ => none
  | _ => none

def utf8 (n : ℕ) : Text :=
  if n < 0x80 then [UInt8.ofNat n]
  else if n < 0x800 then [UInt8.ofNat (0xC0 + n / 64), UInt8.ofNat (0x80 + n % 64)]
  else if n < 0x10000 then
    [UInt8.ofNat (0xE0 + n / 4096), UInt8.ofNat (0x80 + n / 64 % 64), UInt8.ofNat (0x80 + n % 64)]
  else
    [UInt8.ofNat (0xF0 + n / 262144), UInt8.ofNat (0x80 + n / 4096 % 64),
      UInt8.ofNat (0x80 + n / 64 % 64), UInt8.ofNat (0x80 + n % 64)]

def readLowSurrogate (high : ℕ) : Text → Option (Text × Text)
  | a :: b :: more =>
    if a = BACKSLASH ∧ b = 117 then
      (readUnit more).bind fun p =>
        if 0xDC00 ≤ p.1 ∧ p.1 < 0xE000 then
          some (utf8 (0x10000 + (high - 0xD800) * 0x400 + (p.1 - 0xDC00)), p.2)
        else none
    else none
  | _ => none

def readUnicode (t : Text) : Option (Text × Text) :=
  (readUnit t).bind fun p =>
    if p.1 = 0 then none
    else if 0xD800 ≤ p.1 ∧ p.1 < 0xDC00 then readLowSurrogate p.1 p.2
    else if 0xDC00 ≤ p.1 ∧ p.1 < 0xE000 then none
    else some (utf8 p.1, p.2)

def readChar (c : UInt8) (cs : Text) : Option (Text × Text) :=
  if c = BACKSLASH then
    match cs with
    | [] => none
    | d :: ds => if d = 117 then readUnicode ds else (simpleEscape d).map fun x => ([x], ds)
  else if c < 32 then none
  else some ([c], cs)

def readString : ℕ → Text → Option (Text × Text)
  | 0, _ => none
  | _ + 1, [] => none
  | fuel + 1, c :: cs =>
    if c = QUOTE then some ([], cs)
    else (readChar c cs).bind fun p => (readString fuel p.2).map fun q => (p.1 ++ q.1, q.2)

section Items
variable {α : Type} (item : Text → Option (α × Text)) (close : UInt8)

def readItems : ℕ → Text → Option (List α × Text)
  | 0, _ => none
  | fuel + 1, t =>
    (item t).bind fun p =>
      match skipSpace p.2 with
      | [] => none
      | c :: cs =>
        if c = COMMA then (readItems fuel cs).map fun q => (p.1 :: q.1, q.2)
        else if c = close then some ([p.1], cs)
        else none

def readBody (t : Text) : Option (List α × Text) :=
  match skipSpace t with
  | [] => none
  | c :: cs => if c = close then some ([], cs) else readItems item close t.length t

end Items

def readMember (item : Text → Option (Json × Text)) (t : Text) : Option ((Text × Json) × Text) :=
  match skipSpace t with
  | [] => none
  | c :: cs =>
    if c = QUOTE then
      (readString cs.length cs).bind fun p =>
        match skipSpace p.2 with
        | [] => none
        | d :: ds => if d = COLON then (item ds).map fun q => ((p.1, q.1), q.2) else none
    else none

def readWord (t : Text) : Option (Json × Text) :=
  if wordNull.isPrefixOf t then some (.null, t.drop 4)
  else if wordTrue.isPrefixOf t then some (.bool true, t.drop 4)
  else if wordFalse.isPrefixOf t then some (.bool false, t.drop 5)
  else none

def readValue : ℕ → Text → Option (Json × Text)
  | 0, _ => none
  | fuel + 1, t =>
    match skipSpace t with
    | [] => none
    | c :: cs =>
      if c = QUOTE then (readString cs.length cs).map fun p => (.str p.1, p.2)
      else if c = LBRACKET then (readBody (readValue fuel) RBRACKET cs).map fun p => (.arr p.1, p.2)
      else if c = LBRACE then (readBody (readMember (readValue fuel)) RBRACE cs).map fun p =>
        (.obj p.1, p.2)
      else if isNumberByte c then
        (readNumber ((c :: cs).takeWhile isNumberByte)).map fun n =>
          (.num n, (c :: cs).dropWhile isNumberByte)
      else readWord (c :: cs)

def readJson (t : Text) : Option Json :=
  (readValue t.length t).bind fun p => if skipSpace p.2 = [] then some p.1 else none

theorem skipSpace_length (t : Text) : (skipSpace t).length ≤ t.length :=
  (List.dropWhile_sublist _).length_le

theorem skipSpace_cons_length {cs : Text} (h : skipSpace t = c :: cs) :
    cs.length + 1 ≤ t.length := by
  have := skipSpace_length t
  rw [h, List.length_cons] at this
  exact this

structure PlainByte (c : UInt8) : Prop where
  ne_quote : c ≠ QUOTE
  ne_backslash : c ≠ BACKSLASH
  not_control : ¬ c < 32

theorem escapeByte_cases (c : UInt8) :
    (∃ d ∈ [QUOTE, BACKSLASH, 98, 116, 110, 102, 114], escapeByte c = [BACKSLASH, d]) ∨
      escapeByte c = [BACKSLASH, 117, 48, 48, hexDigit (c / 16), hexDigit (c % 16)] ∨
        (PlainByte c ∧ escapeByte c = [c]) := by
  rcases backslashed_cases letters c with ⟨d, hd, hc⟩ | ⟨hno, hc⟩
  · have hmem : d ∈ letters.map Prod.snd := List.mem_map_of_mem hd
    have hne : ¬ (c < 32 ∧ backslashed letters c = [c]) := by
      rintro ⟨-, hsame⟩
      rw [hc] at hsame
      cases hsame
    exact .inl ⟨d, hmem, by rw [escapeByte, if_neg hne, hc]⟩
  · by_cases hlow : c < 32
    · exact .inr (.inl (if_pos ⟨hlow, hc⟩))
    · have hquote : c ≠ QUOTE := (hno (QUOTE, QUOTE) (by decide)).symm
      have hback : c ≠ BACKSLASH := (hno (BACKSLASH, BACKSLASH) (by decide)).symm
      exact .inr (.inr ⟨⟨hquote, hback, hlow⟩, by rw [escapeByte, if_neg fun h => hlow h.1, hc]⟩)

theorem escapeByte_length_le (c : UInt8) : (escapeByte c).length ≤ 6 := by
  rcases escapeByte_cases c with ⟨d, -, hc⟩ | hc | ⟨-, hc⟩ <;> rw [hc] <;> simp

theorem escapeByte_plain (hq : c ≠ QUOTE) (hb : c ≠ BACKSLASH) (hc : ¬ c < 32) :
    escapeByte c = [c] := by
  rcases backslashed_cases letters c with ⟨d, hd, -⟩ | ⟨-, hsame⟩
  · have hletter : ∀ e ∈ letters, e.1 = QUOTE ∨ e.1 = BACKSLASH ∨ e.1 < 32 := by
      simp [letters]
    rcases hletter _ hd with h | h | h
    · exact absurd h hq
    · exact absurd h hb
    · exact absurd h hc
  · rw [escapeByte, if_neg fun h => hc h.1, hsame]

theorem simpleEscape_length {x : UInt8} (h : simpleEscape c = some x) :
    (escapeByte x).length ≤ 2 := by
  unfold simpleEscape at h
  split_ifs at h with hself
  · cases h
    rcases hself with rfl | rfl | rfl <;> decide
  all_goals
    cases h
    decide

theorem readUnit_length {rest : Text} (h : readUnit t = some (n, rest)) :
    rest.length + 4 = t.length := by
  match t, h with
  | a :: b :: c :: d :: rest', h =>
    rw [readUnit] at h
    split at h
    · cases h
      rfl
    · cases h

theorem readUnit_lt {rest : Text} (h : readUnit t = some (n, rest)) : n < 0x10000 := by
  match t, h with
  | a :: b :: c :: d :: rest', h =>
    rw [readUnit] at h
    split at h
    · rename_i ha hb hc hd
      have := hexValue_lt ha
      have := hexValue_lt hb
      have := hexValue_lt hc
      have := hexValue_lt hd
      cases h
      omega
    · cases h

theorem escapeByte_high (hlow : 128 ≤ n) (hhigh : n < 256) :
    (escapeByte (UInt8.ofNat n)).length = 1 := by
  have hnat : (UInt8.ofNat n).toNat = n := by
    rw [UInt8.toNat_ofNat']
    exact Nat.mod_eq_of_lt hhigh
  have hne : ∀ d : UInt8, d.toNat < 128 → UInt8.ofNat n ≠ d := by
    rintro d hd rfl
    rw [hnat] at hd
    omega
  have hnot : ¬ UInt8.ofNat n < 32 := by
    rw [UInt8.lt_iff_toNat_lt, hnat]
    exact not_lt.mpr (le_trans (by decide) hlow)
  rw [escapeByte_plain (hne _ (by decide)) (hne _ (by decide)) hnot]
  rfl

theorem utf8_length (h : n < 0x110000) :
    ((utf8 n).flatMap escapeByte).length ≤ if n < 0x10000 then 6 else 12 := by
  unfold utf8
  split_ifs with h₁ h₂ h₃
  · rw [List.flatMap_singleton]
    exact escapeByte_length_le _
  · omega
  all_goals
    simp only [List.flatMap_cons, List.flatMap_nil, List.length_append, List.length_nil]
    repeat rw [escapeByte_high (by omega) (by omega)]
    omega

def Consumes {α : Type} (read : Text → Option (α × Text)) (size : α → ℕ) : Prop :=
  ∀ t a rest, read t = some (a, rest) → size a + rest.length ≤ t.length

theorem readUnicode_consumes : Consumes readUnicode fun bytes =>
      (bytes.flatMap escapeByte).length - 2 := by
  intro t bytes rest h
  obtain ⟨⟨n, r⟩, hn, h⟩ := Option.bind_eq_some_iff.mp h
  have hlength := readUnit_length hn
  have hlt := readUnit_lt hn
  dsimp only at h
  split_ifs at h with hzero hhigh hlow
  · match r, h with
    | a :: b :: more, h =>
      rw [readLowSurrogate] at h
      split_ifs at h
      obtain ⟨⟨m, r'⟩, hm, h⟩ := Option.bind_eq_some_iff.mp h
      have hlength' := readUnit_length hm
      dsimp only at h
      split_ifs at h with hrange
      obtain ⟨rfl, rfl⟩ := Prod.mk.inj (Option.some.inj h)
      have hutf := @utf8_length (0x10000 + (n - 0xD800) * 0x400 + (m - 0xDC00)) (by omega)
      rw [if_neg (by omega)] at hutf
      simp only [List.length_cons] at hlength
      dsimp only
      omega
  · obtain ⟨rfl, rfl⟩ := Prod.mk.inj (Option.some.inj h)
    have hutf := @utf8_length n (by omega)
    rw [if_pos hlt] at hutf
    dsimp only
    omega

theorem readChar_length {cs bytes rest : Text} (h : readChar c cs = some (bytes, rest))
    (hq : c ≠ QUOTE) :
    (bytes.flatMap escapeByte).length + rest.length ≤ cs.length + 1 := by
  unfold readChar at h
  split_ifs at h with hb hlow
  · cases cs with
    | nil => cases h
    | cons d ds =>
      dsimp only at h
      split_ifs at h
      · have := readUnicode_consumes ds bytes rest h
        dsimp only at this
        simp only [List.length_cons]
        omega
      · obtain ⟨x, hx, h⟩ := Option.map_eq_some_iff.mp h
        have := simpleEscape_length hx
        cases h
        simp only [List.flatMap_singleton, List.length_cons]
        omega
  · cases h
    rw [List.flatMap_singleton, escapeByte_plain hq hb hlow]
    simp only [List.length_cons, List.length_nil]
    omega

theorem readString_consumes (fuel : ℕ) : Consumes (readString fuel) fun s =>
      (s.flatMap escapeByte).length + 1 := by
  induction fuel with
  | zero => exact fun t s rest h => by cases h
  | succ fuel ih =>
    intro t s rest h
    cases t with
    | nil => cases h
    | cons c cs =>
      rw [readString] at h
      split_ifs at h with hq
      · cases h
        simp only [List.flatMap_nil, List.length_nil, List.length_cons]
        omega
      · obtain ⟨⟨bytes, r⟩, hchar, h⟩ := Option.bind_eq_some_iff.mp h
        obtain ⟨⟨tail, r'⟩, htail, h⟩ := Option.map_eq_some_iff.mp h
        cases h
        have hfirst := readChar_length hchar hq
        have hrest := ih _ _ _ htail
        dsimp only at hrest
        simp only [List.flatMap_append, List.length_append, List.length_cons]
        omega

theorem printString_length (s : Text) :
    (printString s).length = (s.flatMap escapeByte).length + 2 := by
  simp [printString]

theorem printItems_cons_cons (close : UInt8) (a b : Text) (items : List Text) :
    printItems close (a :: b :: items) = a ++ COMMA :: printItems close (b :: items) := by
  simp [printItems]

section Items
variable {α : Type} {item : Text → Option (α × Text)} {close : UInt8} {printItem : α → Text}

theorem readItems_consumes (hitem : Consumes item fun a => (printItem a).length) (fuel : ℕ) :
    Consumes (readItems item close fuel) fun items =>
      (printItems close (items.map printItem)).length := by
  induction fuel with
  | zero => exact fun t items rest h => by cases h
  | succ fuel ih =>
    intro t items rest h
    obtain ⟨⟨a, r⟩, ha, h⟩ := Option.bind_eq_some_iff.mp h
    have hfirst := hitem t a r ha
    dsimp only at h
    split at h
    · cases h
    · rename_i c cs hspace
      have hcons := skipSpace_cons_length hspace
      split_ifs at h
      · obtain ⟨⟨items', r'⟩, htail, h⟩ := Option.map_eq_some_iff.mp h
        cases h
        have hrest := ih _ _ _ htail
        dsimp only at hrest hfirst ⊢
        cases items' with
        | nil =>
          simp only [List.map_nil, List.map_cons, printItems, List.intercalate_nil,
            List.intercalate_singleton, List.length_append, List.length_cons,
            List.length_nil] at hrest ⊢
          omega
        | cons b items' =>
          simp only [List.map_cons] at hrest ⊢
          rw [printItems_cons_cons, List.length_append, List.length_cons]
          omega
      · cases h
        dsimp only at hfirst ⊢
        simp only [List.map_cons, List.map_nil, printItems, List.intercalate_singleton,
          List.length_append, List.length_cons, List.length_nil]
        omega

theorem readBody_consumes (hitem : Consumes item fun a => (printItem a).length) :
    Consumes (readBody item close) fun items =>
      (printItems close (items.map printItem)).length := by
  intro t items rest h
  unfold readBody at h
  split at h
  · cases h
  · rename_i c cs hspace
    have hcons := skipSpace_cons_length hspace
    split_ifs at h
    · cases h
      simp only [List.map_nil, printItems, List.intercalate_nil, List.nil_append, List.length_cons,
        List.length_nil]
      omega
    · exact readItems_consumes hitem _ t items rest h

end Items

theorem readMember_consumes {item : Text → Option (Json × Text)}
    (hitem : Consumes item fun v => v.print.length) :
    Consumes (readMember item) fun m => (printMember m).length := by
  intro t m rest h
  unfold readMember at h
  split at h
  · cases h
  · rename_i c cs hspace
    have hcons := skipSpace_cons_length hspace
    split_ifs at h
    obtain ⟨⟨k, r⟩, hk, h⟩ := Option.bind_eq_some_iff.mp h
    have hkey := readString_consumes _ _ _ _ hk
    dsimp only at h hkey
    split at h
    · cases h
    · rename_i d ds hspace'
      have hcons' := skipSpace_cons_length hspace'
      split_ifs at h
      obtain ⟨⟨v, r'⟩, hv, h⟩ := Option.map_eq_some_iff.mp h
      have hvalue := hitem _ _ _ hv
      cases h
      dsimp only at hvalue ⊢
      rw [printMember, List.length_append, printString_length, List.length_cons]
      dsimp only
      omega

theorem readWord_consumes : Consumes readWord fun v => v.print.length := by
  have hword : ∀ {word t : Text}, word.isPrefixOf t = true →
      word.length + (t.drop word.length).length ≤ t.length := by
    intro word t h
    have hle := (List.isPrefixOf_iff_prefix.mp h).length_le
    rw [List.length_drop]
    omega
  intro t v rest h
  unfold readWord at h
  split_ifs at h with hnull htrue hfalse
  · cases h
    dsimp only
    rw [Json.print]
    exact hword hnull
  · cases h
    dsimp only
    rw [Json.print]
    exact hword htrue
  · cases h
    dsimp only
    rw [Json.print]
    exact hword hfalse

theorem readValue_consumes (fuel : ℕ) : Consumes (readValue fuel) fun v => v.print.length := by
  induction fuel with
  | zero => exact fun t v rest h => by cases h
  | succ fuel ih =>
    intro t v rest h
    rw [readValue] at h
    split at h
    · cases h
    · rename_i c cs hspace
      have hcons := skipSpace_cons_length hspace
      split_ifs at h
      · obtain ⟨⟨s, r⟩, hs, h⟩ := Option.map_eq_some_iff.mp h
        have := readString_consumes _ _ _ _ hs
        cases h
        dsimp only at this ⊢
        rw [Json.print, printString_length]
        omega
      · obtain ⟨⟨elements, r⟩, hbody, h⟩ := Option.map_eq_some_iff.mp h
        have := readBody_consumes ih _ _ _ hbody
        cases h
        dsimp only at this ⊢
        rw [print_arr, List.length_cons]
        omega
      · obtain ⟨⟨members, r⟩, hbody, h⟩ := Option.map_eq_some_iff.mp h
        have := readBody_consumes (readMember_consumes ih) _ _ _ hbody
        cases h
        dsimp only at this ⊢
        rw [print_obj, List.length_cons]
        omega
      · obtain ⟨n, hn, h⟩ := Option.map_eq_some_iff.mp h
        have htext := readNumber_eq_some hn
        cases h
        dsimp only
        rw [Json.print, htext, ← List.length_append, List.takeWhile_append_dropWhile]
        exact hcons
      · have := readWord_consumes _ _ _ h
        dsimp only at this ⊢
        rw [List.length_cons] at this
        omega

theorem print_length_le {v : Json} (h : readJson t = some v) : v.print.length ≤ t.length := by
  obtain ⟨⟨w, rest⟩, hread, h⟩ := Option.bind_eq_some_iff.mp h
  have := readValue_consumes _ _ _ _ hread
  dsimp only at h this
  split_ifs at h
  cases h
  omega

theorem plainByte_of_escapeByte (h : BACKSLASH ∉ escapeByte c) : PlainByte c := by
  rcases escapeByte_cases c with ⟨d, -, hc⟩ | hc | ⟨hplain, -⟩
  · exact absurd (hc ▸ List.mem_cons_self) h
  · exact absurd (hc ▸ List.mem_cons_self) h
  · exact hplain

theorem plain_of_flatMap (h : BACKSLASH ∉ s.flatMap escapeByte) : ∀ c ∈ s, PlainByte c := by
  intro c hc
  apply plainByte_of_escapeByte
  exact fun hmem => h (List.mem_flatMap.mpr ⟨c, hc, hmem⟩)

theorem PlainByte.readChar_eq (h : PlainByte c) (cs : Text) : readChar c cs = some ([c], cs) := by
  unfold readChar
  rw [if_neg h.ne_backslash, if_neg h.not_control]

theorem PlainByte.escapeByte_eq (h : PlainByte c) : escapeByte c = [c] :=
  escapeByte_plain h.ne_quote h.ne_backslash h.not_control

theorem readString_plain (h : ∀ c ∈ s, PlainByte c) {fuel : ℕ} (hfuel : s.length < fuel)
    (rest : Text) :
    readString fuel (s.flatMap escapeByte ++ QUOTE :: rest) = some (s, rest) := by
  induction s generalizing fuel with
  | nil =>
    obtain ⟨fuel, rfl⟩ := Nat.exists_eq_add_of_le' hfuel
    rw [List.flatMap_nil, List.nil_append]
    exact if_pos rfl
  | cons c s ih =>
    obtain ⟨fuel, rfl⟩ := Nat.exists_eq_add_of_le' (Nat.one_le_of_lt hfuel)
    have hc := h c List.mem_cons_self
    have htail := ih (fun d hd => h d (List.mem_cons_of_mem c hd)) (Nat.lt_of_succ_lt_succ hfuel)
    rw [List.flatMap_cons, hc.escapeByte_eq, List.singleton_append, List.cons_append, readString,
      if_neg hc.ne_quote, hc.readChar_eq, Option.bind_some, htail]
    rfl

theorem skipSpace_of_head (h : isSpace c = false) (cs : Text) : skipSpace (c :: cs) = c :: cs :=
  List.dropWhile_cons_of_neg (by simp [h])

def Ends (rest : Text) : Prop := ∀ c ∈ rest.head?, isNumberByte c = false

section Items
variable {α : Type} {item : Text → Option (α × Text)} {close : UInt8} {printItem : α → Text}

structure Closes (close : UInt8) : Prop where
  not_number : isNumberByte close = false
  not_space : isSpace close = false
  ne_comma : close ≠ COMMA

theorem readItems_print (hclose : Closes close) {items : List α}
    (hitem : ∀ a ∈ items, ∀ rest, Ends rest → item (printItem a ++ rest) = some (a, rest))
    (hne : items ≠ []) {fuel : ℕ} (hfuel : items.length ≤ fuel) (rest : Text) :
    readItems item close fuel (printItems close (items.map printItem) ++ rest) =
      some (items, rest) := by
  induction items generalizing fuel with
  | nil => exact absurd rfl hne
  | cons a items ih =>
    obtain ⟨fuel, rfl⟩ := Nat.exists_eq_add_of_le' (Nat.one_le_of_lt hfuel)
    cases items with
    | nil =>
      have htext : printItems close ([a].map printItem) ++ rest = printItem a ++ close :: rest := by
        simp [printItems]
      have hends : Ends (close :: rest) := by
        rintro c ⟨⟩
        exact hclose.not_number
      rw [htext, readItems, hitem a List.mem_cons_self _ hends, Option.bind_some]
      dsimp only
      rw [skipSpace_of_head hclose.not_space]
      dsimp only
      rw [if_neg hclose.ne_comma, if_pos rfl]
    | cons b items =>
      have htext : printItems close ((a :: b :: items).map printItem) ++ rest =
          printItem a ++ COMMA :: (printItems close ((b :: items).map printItem) ++ rest) := by
        rw [List.map_cons, List.map_cons, printItems_cons_cons, List.append_assoc]
        rfl
      have hends : Ends (COMMA :: (printItems close ((b :: items).map printItem) ++ rest)) := by
        rintro c ⟨⟩
        decide
      have htail := ih (fun x hx => hitem x (List.mem_cons_of_mem a hx)) (List.cons_ne_nil b items)
        (Nat.le_of_succ_le_succ hfuel)
      rw [htext, readItems, hitem a List.mem_cons_self _ hends, Option.bind_some]
      dsimp only
      rw [skipSpace_of_head (by decide)]
      dsimp only
      rw [if_pos rfl, htail]
      rfl

theorem length_le_printItems (close : UInt8) (h : ∀ t ∈ items, t ≠ []) :
    items.length ≤ (printItems close items).length := by
  induction items with
  | nil => exact Nat.zero_le _
  | cons a items ih =>
    have hpos := List.length_pos_of_ne_nil (h a List.mem_cons_self)
    cases items with
    | nil =>
      simp only [printItems, List.intercalate_singleton, List.length_append, List.length_cons,
        List.length_nil]
      omega
    | cons b items =>
      have htail := ih fun t ht => h t (List.mem_cons_of_mem a ht)
      rw [printItems_cons_cons, List.length_append, List.length_cons]
      simp only [List.length_cons] at htail ⊢
      omega

def StartsItem (close : UInt8) (t : Text) : Prop :=
  ∃ c cs, t = c :: cs ∧ isSpace c = false ∧ c ≠ close

theorem readBody_print (hclose : Closes close) {items : List α}
    (hitem : ∀ a ∈ items, ∀ rest, Ends rest → item (printItem a ++ rest) = some (a, rest))
    (hstart : ∀ a ∈ items, StartsItem close (printItem a)) (rest : Text) :
    readBody item close (printItems close (items.map printItem) ++ rest) = some (items, rest) := by
  cases items with
  | nil =>
    have htext : printItems close (([] : List α).map printItem) ++ rest = close :: rest := by
      simp [printItems]
    rw [htext, readBody, skipSpace_of_head hclose.not_space]
    exact if_pos rfl
  | cons a items =>
    have hread := fun fuel hfuel =>
      @readItems_print α item close printItem hclose (a :: items) hitem
      (List.cons_ne_nil a items) fuel hfuel rest
    have hnonempty : ∀ t ∈ (a :: items).map printItem, t ≠ [] := by
      intro t ht
      obtain ⟨b, hb, rfl⟩ := List.mem_map.mp ht
      obtain ⟨c, cs, hc, -, -⟩ := hstart b hb
      rw [hc]
      exact List.cons_ne_nil c cs
    have hlength := length_le_printItems close hnonempty
    rw [List.length_map] at hlength
    obtain ⟨c, cs, hc, hspace, hne⟩ := hstart a List.mem_cons_self
    obtain ⟨tail, htail⟩ : ∃ tail, printItems close ((a :: items).map printItem) ++
        rest = c :: tail := by
      cases items with
      | nil => exact ⟨_, by simp [printItems, hc]; rfl⟩
      | cons b items =>
        rw [List.map_cons, List.map_cons, printItems_cons_cons, hc]
        exact ⟨_, rfl⟩
    have hall := hread (printItems close ((a :: items).map printItem) ++ rest).length
      (by rw [List.length_append]; omega)
    rw [readBody, htail, skipSpace_of_head hspace]
    dsimp only
    rw [if_neg hne, ← htail]
    exact hall

end Items

theorem closes_bracket : Closes RBRACKET := ⟨by decide, by decide, by decide⟩

theorem closes_brace : Closes RBRACE := ⟨by decide, by decide, by decide⟩

theorem isNumberByte_ne {d : UInt8} (hc : isNumberByte c = true) (hd : isNumberByte d = false) :
    c ≠ d := by
  rintro rfl
  rw [hc] at hd
  cases hd

theorem isNumberByte_not_space (hc : isNumberByte c = true) : isSpace c = false := by
  have h32 := isNumberByte_ne hc (d := 32) (by decide)
  have h9 := isNumberByte_ne hc (d := 9) (by decide)
  have h10 := isNumberByte_ne hc (d := 10) (by decide)
  have h13 := isNumberByte_ne hc (d := 13) (by decide)
  simp [isSpace, h32, h9, h10, h13]

theorem Number.head (n : Number) : ∃ c cs, n.text = c :: cs ∧ isNumberByte c = true := by
  cases htext : n.text with
  | nil => exact absurd htext n.text_ne_nil
  | cons c cs => exact ⟨c, cs, rfl, n.all_bytes c (by rw [htext]; exact List.mem_cons_self)⟩

theorem Json.print_startsItem {close : UInt8}
    (hclose : close = RBRACKET ∨ close = RBRACE) (v : Json) :
    StartsItem close v.print := by
  have hne : ∀ c : UInt8, c ≠ RBRACKET → c ≠ RBRACE → c ≠ close := by
    intro c h₁ h₂
    rcases hclose with rfl | rfl
    · exact h₁
    · exact h₂
  cases v with
  | null => exact ⟨110, _, by rw [Json.print]; rfl, by decide, hne _ (by decide) (by decide)⟩
  | bool b =>
    rw [Json.print]
    cases b
    · exact ⟨102, _, rfl, by decide, hne _ (by decide) (by decide)⟩
    · exact ⟨116, _, rfl, by decide, hne _ (by decide) (by decide)⟩
  | num n =>
    obtain ⟨c, cs, hc, hnumber⟩ := n.head
    exact ⟨c, cs, by rw [Json.print, hc], isNumberByte_not_space hnumber,
      hne c (isNumberByte_ne hnumber (by decide)) (isNumberByte_ne hnumber (by decide))⟩
  | str s => exact ⟨QUOTE, _, by rw [Json.print]; rfl, by decide, hne _ (by decide) (by decide)⟩
  | arr elements =>
    exact ⟨LBRACKET, _, print_arr elements, by decide, hne _ (by decide) (by decide)⟩
  | obj members => exact ⟨LBRACE, _, print_obj members, by decide, hne _ (by decide) (by decide)⟩

theorem mem_printItems {close : UInt8} (ht : t ∈ items) (hc : c ∈ t) :
    c ∈ printItems close items := by
  induction items with
  | nil => exact absurd ht List.not_mem_nil
  | cons a items ih =>
    cases items with
    | nil =>
      rw [List.mem_singleton] at ht
      subst ht
      simp [printItems, hc]
    | cons b items =>
      rw [printItems_cons_cons]
      rcases List.mem_cons.mp ht with rfl | ht
      · exact List.mem_append_left _ hc
      · exact List.mem_append_right _ (List.mem_cons_of_mem _ (ih ht))

theorem mem_of_mem_printItems {close : UInt8} (hc : c ∈ printItems close items) :
    c = close ∨ c = COMMA ∨ ∃ t ∈ items, c ∈ t := by
  induction items with
  | nil => exact .inl (List.mem_singleton.mp hc)
  | cons a items ih =>
    cases items with
    | nil =>
      rw [printItems, List.intercalate_singleton, List.mem_append, List.mem_singleton] at hc
      exact hc.symm.imp_right fun ha => .inr ⟨a, List.mem_cons_self, ha⟩
    | cons b items =>
      rw [printItems_cons_cons, List.mem_append, List.mem_cons] at hc
      rcases hc with ha | hcomma | hrest
      · exact .inr (.inr ⟨a, List.mem_cons_self, ha⟩)
      · exact .inr (.inl hcomma)
      · exact (ih hrest).imp_right (.imp_right fun ⟨t, ht, hct⟩ =>
          ⟨t, List.mem_cons_of_mem a ht, hct⟩)

theorem length_item_lt {close : UInt8} {items : List Text} {t : Text} (ht : t ∈ items) :
    t.length < (printItems close items).length := by
  induction items with
  | nil => exact absurd ht List.not_mem_nil
  | cons a items ih =>
    cases items with
    | nil =>
      rw [List.mem_singleton] at ht
      subst ht
      simp [printItems]
    | cons b items =>
      rw [printItems_cons_cons, List.length_append, List.length_cons]
      rcases List.mem_cons.mp ht with rfl | ht
      · omega
      · have := ih ht
        omega

theorem flatMap_plain (h : ∀ c ∈ s, PlainByte c) : s.flatMap escapeByte = s := by
  have hcongr := List.flatMap_congr fun c hc => (h c hc).escapeByte_eq
  rw [hcongr]
  exact List.flatMap_singleton' s

theorem readMember_print {item : Text → Option (Json × Text)} {m : Text × Json}
    (hitem : ∀ rest, Ends rest → item (m.2.print ++ rest) = some (m.2, rest))
    (hplain : BACKSLASH ∉ printMember m) (rest : Text) (hends : Ends rest) :
    readMember item (printMember m ++ rest) = some (m, rest) := by
  obtain ⟨k, v⟩ := m
  have hkey : ∀ c ∈ k, PlainByte c := by
    apply plain_of_flatMap
    intro hmem
    exact hplain (List.mem_append_left _ (List.mem_cons_of_mem _ (List.mem_append_left _ hmem)))
  have htext : printMember (k, v) ++ rest =
      QUOTE :: (k.flatMap escapeByte ++ QUOTE :: COLON :: (v.print ++ rest)) := by
    simp [printMember, printString]
  have hlength :
      k.length < (k.flatMap escapeByte ++ QUOTE :: COLON :: (v.print ++ rest)).length := by
    rw [flatMap_plain hkey, List.length_append, List.length_cons]
    omega
  rw [htext, readMember, skipSpace_of_head (by decide)]
  dsimp only
  rw [if_pos rfl, readString_plain hkey hlength, Option.bind_some]
  dsimp only
  rw [skipSpace_of_head (by decide)]
  dsimp only
  rw [if_pos rfl, hitem rest hends]
  rfl

theorem span_number (n : Number) {rest : Text} (hends : Ends rest) :
    (n.text ++ rest).takeWhile isNumberByte = n.text ∧
      (n.text ++ rest).dropWhile isNumberByte = rest := by
  rw [List.takeWhile_append_of_pos n.all_bytes, List.dropWhile_append_of_pos n.all_bytes]
  cases rest with
  | nil => simp
  | cons c cs =>
    have hc : ¬ isNumberByte c = true := by simp [hends c rfl]
    rw [List.takeWhile_cons_of_neg hc, List.dropWhile_cons_of_neg hc, List.append_nil]
    exact ⟨rfl, rfl⟩

theorem readWord_print (v : Json) (hv : v = .null ∨ ∃ b, v = .bool b) (rest : Text) :
    readWord (v.print ++ rest) = some (v, rest) := by
  rcases hv with rfl | ⟨_ | _, rfl⟩
  · rw [Json.print]
    rfl
  · rw [Json.print]
    rfl
  · rw [Json.print]
    rfl

section Values
variable (fuel : ℕ) {rest : Text}

theorem readValue_num (n : Number) (hends : Ends rest) :
    readValue (fuel + 1) (n.text ++ rest) = some (.num n, rest) := by
  obtain ⟨c, cs, hc, hnumber⟩ := n.head
  obtain ⟨htake, hdrop⟩ := span_number n hends
  rw [hc, List.cons_append] at htake hdrop
  rw [readValue, hc, List.cons_append, skipSpace_of_head (isNumberByte_not_space hnumber)]
  dsimp only
  rw [if_neg (isNumberByte_ne hnumber (by decide)), if_neg (isNumberByte_ne hnumber (by decide)),
    if_neg (isNumberByte_ne hnumber (by decide)), if_pos hnumber, htake, hdrop, ← hc,
    readNumber_text]
  rfl

theorem readValue_str (hplain : BACKSLASH ∉ printString s) :
    readValue (fuel + 1) (printString s ++ rest) = some (.str s, rest) := by
  have hs : ∀ c ∈ s, PlainByte c :=
    plain_of_flatMap fun hmem => hplain (List.mem_cons_of_mem _ (List.mem_append_left _ hmem))
  have htext : printString s ++ rest = QUOTE :: (s.flatMap escapeByte ++ QUOTE :: rest) := by
    simp [printString]
  have hlength : s.length < (s.flatMap escapeByte ++ QUOTE :: rest).length := by
    rw [flatMap_plain hs, List.length_append, List.length_cons]
    omega
  rw [readValue, htext, skipSpace_of_head (by decide)]
  dsimp only
  rw [if_pos rfl, readString_plain hs hlength]
  rfl

variable {fuel}

theorem readValue_arr {elements : List Json}
    (h : ∀ v ∈ elements, ∀ rest, Ends rest → readValue fuel (v.print ++ rest) = some (v, rest)) :
    readValue (fuel + 1) ((Json.arr elements).print ++ rest) = some (.arr elements, rest) := by
  have hbody := readBody_print closes_bracket h (fun v _ => v.print_startsItem (Or.inl rfl)) rest
  rw [readValue, print_arr, List.cons_append, skipSpace_of_head (by decide)]
  dsimp only
  rw [if_neg (by decide), if_pos rfl, hbody]
  rfl

theorem readValue_obj {members : List (Text × Json)}
    (hplain : ∀ m ∈ members, BACKSLASH ∉ printMember m)
    (h : ∀ m ∈ members, ∀ rest, Ends rest → readValue fuel (m.2.print ++ rest) = some (m.2, rest)) :
    readValue (fuel + 1) ((Json.obj members).print ++ rest) = some (.obj members, rest) := by
  have hbody := readBody_print closes_brace (fun m hm => readMember_print (h m hm) (hplain m hm))
    (fun m _ => ⟨QUOTE, _, rfl, by decide, by decide⟩) rest
  rw [readValue, print_obj, List.cons_append, skipSpace_of_head (by decide)]
  dsimp only
  rw [if_neg (by decide), if_neg (by decide), if_pos rfl, hbody]
  rfl

end Values

theorem readValue_print (fuel : ℕ) (v : Json) (hplain : BACKSLASH ∉ v.print)
    (hfuel : v.print.length ≤ fuel) (rest : Text) (hends : Ends rest) :
    readValue fuel (v.print ++ rest) = some (v, rest) := by
  induction fuel generalizing v rest with
  | zero =>
    obtain ⟨c, cs, hc, -, -⟩ := v.print_startsItem (Or.inl rfl)
    rw [hc] at hfuel
    exact absurd hfuel (Nat.not_succ_le_zero _)
  | succ fuel ih =>
    cases v with
    | null =>
      have hword := readWord_print .null (Or.inl rfl) rest
      rw [Json.print] at hword ⊢
      exact hword
    | bool b =>
      have hword := readWord_print (.bool b) (Or.inr ⟨b, rfl⟩) rest
      rw [Json.print] at hword ⊢
      cases b
      · exact hword
      · exact hword
    | num n =>
      rw [Json.print]
      exact readValue_num fuel n hends
    | str s =>
      rw [Json.print] at hplain ⊢
      exact readValue_str fuel hplain
    | arr elements =>
      rw [print_arr] at hplain hfuel
      refine readValue_arr fun v hv => ih v ?_ ?_
      · exact fun hmem =>
          hplain (List.mem_cons_of_mem _ (mem_printItems (List.mem_map_of_mem hv) hmem))
      · have hlt := @length_item_lt RBRACKET _ _ (List.mem_map_of_mem (f := Json.print) hv)
        rw [List.length_cons] at hfuel
        omega
    | obj members =>
      rw [print_obj] at hplain hfuel
      have hmember : ∀ m ∈ members, BACKSLASH ∉ printMember m := fun m hm hmem =>
        hplain (List.mem_cons_of_mem _ (mem_printItems (List.mem_map_of_mem hm) hmem))
      refine readValue_obj hmember fun m hm => ih m.2 ?_ ?_
      · exact fun hmem => hmember m hm (List.mem_append_right _ (List.mem_cons_of_mem _ hmem))
      · have hlt := @length_item_lt RBRACE _ _ (List.mem_map_of_mem (f := printMember) hm)
        rw [printMember, List.length_append, List.length_cons] at hlt
        rw [List.length_cons] at hfuel
        omega

theorem readJson_print {v : Json} (hplain : BACKSLASH ∉ v.print) : readJson v.print = some v := by
  have hread := readValue_print v.print.length v hplain le_rfl [] (by rintro c ⟨⟩)
  rw [List.append_nil] at hread
  unfold readJson
  rw [hread]
  rfl

end Lantern.JsonText
