import Lantern.ByteText
import Lantern.Fallible

set_option autoImplicit false

/-!
# The text format that `COPY FROM` reads

A line ends with a newline, a carriage return or both, whichever the first line ends
with. A backslash takes the byte behind it along; a backslash with a period ends the
data. Fields are separated by tabs, are null if they are the null marker as they stand,
and have their escapes replaced otherwise.
-/
namespace Lantern.CopyText
open ByteText Fallible

def TAB : UInt8 := 9
def NEWLINE : UInt8 := 10
def RETURN : UInt8 := 13
def DOT : UInt8 := 46

inductive EolType where
  | unknown
  | nl
  | cr
  | crnl
  deriving DecidableEq, Repr

/-- `last` is set at the end of the data. -/
structure Line where
  text : Text
  eol : EolType
  rest : Text
  last : Bool

def Line.cons (cs : Text) (line : Line) : Line := { line with text := cs ++ line.text }

def endMarker (eol : EolType) (rest : Text) : Except String Unit :=
  let c := if eol = .crnl then rest[1]? else rest[0]?
  if eol = .crnl ∧ rest[0]? = some NEWLINE then
    .error "end-of-copy marker does not match previous newline style"
  else if eol = .crnl ∧ rest[0]? ≠ some RETURN then .error "end-of-copy marker corrupt"
  else if c ≠ some RETURN ∧ c ≠ some NEWLINE then .error "end-of-copy marker corrupt"
  else if (eol = .nl ∧ c ≠ some NEWLINE) ∨ (eol = .crnl ∧ c ≠ some NEWLINE) ∨
    (eol = .cr ∧ c ≠ some RETURN) then
    .error "end-of-copy marker does not match previous newline style"
  else .ok ()

def readReturn (eol : EolType) (rest : Text) : Except String Line :=
  match eol with
  | .unknown =>
    if rest.head? = some NEWLINE then .ok ⟨[], .crnl, rest.tail, false⟩
      else .ok ⟨[], .cr, rest, false⟩
  | .crnl =>
    if rest.head? = some NEWLINE then .ok ⟨[], .crnl, rest.tail, false⟩
    else .error "literal carriage return found in data"
  | .nl => .error "literal carriage return found in data"
  | .cr => .ok ⟨[], .cr, rest, false⟩

def readLine (eol : EolType) : Text → Except String Line
  | [] => .ok ⟨[], eol, [], true⟩
  | c :: cs =>
    if c = NEWLINE then
      if eol = .cr ∨ eol = .crnl then .error "literal newline found in data"
        else .ok ⟨[], .nl, cs, false⟩
    else if c = RETURN then readReturn eol cs
    else if c = BACKSLASH then
      match cs with
      | [] => .ok ⟨[c], eol, [], true⟩
      | d :: ds =>
        if d = DOT then (endMarker eol ds).map fun _ => ⟨[], eol, [], true⟩
        else (readLine eol ds).map (Line.cons [c, d])
    else (readLine eol cs).map (Line.cons [c])

def consHead (cs : Text) : List Text → List Text
  | [] => [cs]
  | f :: fs => (cs ++ f) :: fs

def splitFields : Text → List Text
  | [] => [[]]
  | c :: cs =>
    if c = TAB then [] :: splitFields cs
    else if c = BACKSLASH then
      match cs with
      | [] => [[c]]
      | d :: ds => consHead [c, d] (splitFields ds)
    else consHead [c] (splitFields cs)

def isOctal (c : UInt8) : Bool := 48 ≤ c && c ≤ 55

/-- The byte that stands for a backslash with `c`, the rest, and whether the byte
    is given by its number. -/
def escapedByte (c : UInt8) (cs : Text) : UInt8 × Text × Bool :=
  if isOctal c then
    let digits := (cs.take 2).takeWhile isOctal
    (UInt8.ofNat (digits.foldl (fun v d => v * 8 + (d.toNat - 48)) (c.toNat - 48)),
      cs.drop digits.length, true)
  else if c = 120 then
    let digits := (cs.take 2).takeWhile fun d => (hexValue d).isSome
    if digits = [] then (c, cs, false)
    else (UInt8.ofNat (digits.foldl (fun v d => v * 16 + (hexValue d).getD 0) 0),
      cs.drop digits.length, true)
  else if c = 98 then (8, cs, false)
  else if c = 102 then (12, cs, false)
  else if c = 110 then (10, cs, false)
  else if c = 114 then (13, cs, false)
  else if c = 116 then (9, cs, false)
  else if c = 118 then (11, cs, false)
  else (c, cs, false)

theorem escapedByte_rest (c : UInt8) (cs : Text) : (escapedByte c cs).2.1.length ≤ cs.length := by
  unfold escapedByte
  dsimp only
  repeat' split
  all_goals first
    | exact le_refl _
    | exact (List.length_drop ▸ Nat.sub_le _ _)

/-- The text without its escapes, and whether a byte given by its number calls for
    a check of the encoding. -/
def unescape : Text → Text × Bool
  | [] => ([], false)
  | c :: cs =>
    if c = BACKSLASH then
      match cs with
      | [] => ([], false)
      | d :: ds =>
        let e := escapedByte d ds
        let r := unescape e.2.1
        (e.1 :: r.1, (e.2.2 && (e.1 == 0 || 128 ≤ e.1)) || r.2)
    else
      let r := unescape cs
      (c :: r.1, r.2)
termination_by text => text.length
decreasing_by
  · have := escapedByte_rest d ds
    simp only [List.length_cons]
    omega
  · simp

/-- `valid` is the check of the database encoding. -/
def decodeField (marker : Text) (valid : Text → Bool) (raw : Text) : Except String (Option Text) :=
  if raw = marker then .ok none
  else if (unescape raw).2 && !valid (unescape raw).1 then
    .error "invalid byte sequence for encoding"
  else .ok (some (unescape raw).1)

def decodeFields (marker : Text) (valid : Text → Bool) (columns : ℕ) (raw : List Text) :
    Except String (List (Option Text)) :=
  if raw.length < columns then .error "missing data for column"
  else if columns < raw.length then .error "extra data after last expected column"
  else raw.mapM (decodeField marker valid)

variable {cs p t : Text} {line : Line} {fs : List Text} {c : UInt8}

theorem readReturn_rest {eol : EolType} {rest : Text} (h : readReturn eol rest = .ok line) :
    line.rest.length ≤ rest.length := by
  unfold readReturn at h
  split at h
  · split at h
    · cases h
      simp
    · cases h
      exact le_refl _
  · split at h
    · cases h
      simp
    · cases h
  · cases h
  · cases h
    exact le_refl _

@[elab_as_elim]
theorem token_induction {motive : Text → Prop} (nil : motive []) (dangling : motive [BACKSLASH])
    (escape : ∀ c cs, motive cs → motive (BACKSLASH :: c :: cs))
    (plain : ∀ c cs, c ≠ BACKSLASH → motive cs → motive (c :: cs)) (t : Text) : motive t := by
  induction h : t.length using Nat.strong_induction_on generalizing t with
  | _ n ih =>
    cases t with
    | nil => exact nil
    | cons c cs =>
      have htail := ih cs.length (by rw [← h, List.length_cons]; omega) cs rfl
      by_cases hc : c = BACKSLASH
      · subst hc
        cases cs with
        | nil => exact dangling
        | cons d ds => exact escape d ds (ih ds.length (by rw [← h]; simp) ds rfl)
      · exact plain c cs hc htail

section ReadLine
variable (eol : EolType)

theorem readLine_newline (cs : Text) :
    readLine eol (NEWLINE :: cs) =
      if eol = .cr ∨ eol = .crnl then .error "literal newline found in data"
        else .ok ⟨[], .nl, cs, false⟩ := by
  rw [readLine.eq_def]
  exact if_pos rfl

theorem readLine_return (cs : Text) : readLine eol (RETURN :: cs) = readReturn eol cs := by
  rw [readLine.eq_def]
  exact (if_neg (by decide)).trans (if_pos rfl)

theorem readLine_escape (c : UInt8) (cs : Text) :
    readLine eol (BACKSLASH :: c :: cs) =
      if c = DOT then (endMarker eol cs).map fun _ => ⟨[], eol, [], true⟩
      else (readLine eol cs).map (Line.cons [BACKSLASH, c]) := by
  rw [readLine, if_neg (by decide), if_neg (by decide), if_pos rfl]

theorem readLine_plain (hb : c ≠ BACKSLASH) (hn : c ≠ NEWLINE) (hr : c ≠ RETURN) (cs : Text) :
    readLine eol (c :: cs) = (readLine eol cs).map (Line.cons [c]) := by
  rw [readLine.eq_def]
  exact (if_neg hn).trans ((if_neg hr).trans (if_neg hb))

end ReadLine

theorem readLine_rest {eol : EolType} {data : Text} (h : readLine eol data = .ok line) :
    line.rest.length ≤ data.length ∧ (line.last = false → line.rest.length < data.length) := by
  induction data using token_induction generalizing line with
  | nil =>
    cases h
    simp
  | dangling =>
    cases h
    simp
  | escape c cs ih =>
    rw [readLine_escape] at h
    split at h
    · obtain ⟨u, -, rfl⟩ := map_eq_ok.mp h
      simp
    · obtain ⟨l, hl, rfl⟩ := map_eq_ok.mp h
      have hrest := ih hl
      simp only [Line.cons, List.length_cons]
      exact ⟨by omega, fun _ => by omega⟩
  | plain c cs hc ih =>
    by_cases hn : c = NEWLINE
    · subst hn
      rw [readLine_newline] at h
      split at h
      · cases h
      · cases h
        simp
    by_cases hr : c = RETURN
    · subst hr
      rw [readLine_return] at h
      have hrest := readReturn_rest h
      simp only [List.length_cons]
      exact ⟨by omega, fun _ => by omega⟩
    · rw [readLine_plain eol hc hn hr] at h
      obtain ⟨l, hl, rfl⟩ := map_eq_ok.mp h
      have hrest := ih hl
      simp only [Line.cons, List.length_cons]
      exact ⟨by omega, fun _ => by omega⟩

def copyRows (row : List Text → Except String (List (Option Text))) (eol : EolType) (data : Text) :
    Except String (List (List (Option Text))) :=
  match _h : readLine eol data with
  | .error e => .error e
  | .ok line =>
    if _hlast : line.last = true then
      if line.text = [] then .ok [] else (row (splitFields line.text)).map fun r => [r]
    else
      (row (splitFields line.text)).bind fun r =>
        (copyRows row line.eol line.rest).map fun rs => r :: rs
termination_by data.length
decreasing_by exact (readLine_rest _h).2 (by simpa using _hlast)

theorem copyRows_last {row : List Text → Except String (List (Option Text))}
    {eol : EolType} {data : Text} {line : Line} (h : readLine eol data = .ok line)
    (hlast : line.last = true) :
    copyRows row eol data =
      if line.text = [] then .ok [] else (row (splitFields line.text)).map fun r => [r] := by
  rw [copyRows]
  split <;> simp_all

theorem copyRows_next {row : List Text → Except String (List (Option Text))} {eol : EolType}
    {data : Text} (h : readLine eol data = .ok line) (hlast : line.last = false) :
    copyRows row eol data =
      (row (splitFields line.text)).bind fun r =>
        (copyRows row line.eol line.rest).map fun rs => r :: rs := by
  rw [copyRows]
  split <;> simp_all

theorem copyRows_error {row : List Text → Except String (List (Option Text))}
    {eol : EolType} {data : Text} {e : String} (h : readLine eol data = .error e) :
    copyRows row eol data = .error e := by
  rw [copyRows]
  split <;> simp_all

/-- No byte of the payload ends a field or a line, and no backslash is followed by
    a period. -/
inductive Escaped : Text → Prop where
  | nil : Escaped []
  | plain {c : UInt8} {cs : Text} (hb : c ≠ BACKSLASH) (ht : c ≠ TAB) (hn : c ≠ NEWLINE)
    (hr : c ≠ RETURN)
      (h : Escaped cs) : Escaped (c :: cs)
  | escape {c : UInt8} {cs : Text} (hd : c ≠ DOT) (h : Escaped cs) : Escaped (BACKSLASH :: c :: cs)

structure Plain (t : Text) : Prop where
  no_backslash : BACKSLASH ∉ t
  no_tab : TAB ∉ t
  no_newline : NEWLINE ∉ t
  no_return : RETURN ∉ t

theorem Plain.tail (h : Plain (c :: cs)) : Plain cs :=
  ⟨fun hm => h.1 (List.mem_cons_of_mem _ hm), fun hm => h.2 (List.mem_cons_of_mem _ hm),
    fun hm => h.3 (List.mem_cons_of_mem _ hm), fun hm => h.4 (List.mem_cons_of_mem _ hm)⟩

theorem Plain.head (h : Plain (c :: cs)) :
    c ≠ BACKSLASH ∧ c ≠ TAB ∧ c ≠ NEWLINE ∧ c ≠ RETURN :=
  ⟨fun he => h.1 (he ▸ List.mem_cons_self), fun he => h.2 (he ▸ List.mem_cons_self),
    fun he => h.3 (he ▸ List.mem_cons_self), fun he => h.4 (he ▸ List.mem_cons_self)⟩

instance (t : Text) : Decidable (Plain t) :=
  decidable_of_iff (BACKSLASH ∉ t ∧ TAB ∉ t ∧ NEWLINE ∉ t ∧ RETURN ∉ t)
    ⟨fun h => ⟨h.1, h.2.1, h.2.2.1, h.2.2.2⟩, fun h => ⟨h.1, h.2, h.3, h.4⟩⟩

theorem Plain.escaped (h : Plain t) : Escaped t := by
  induction t with
  | nil => exact .nil
  | cons c cs ih =>
    obtain ⟨hb, ht, hn, hr⟩ := h.head
    exact .plain hb ht hn hr (ih h.tail)

theorem Escaped.append {q : Text} (hp : Escaped p) (hq : Escaped q) : Escaped (p ++ q) := by
  induction hp with
  | nil => exact hq
  | plain hb ht hn hr _ ih => exact .plain hb ht hn hr ih
  | escape hd _ ih => exact .escape hd ih

theorem Line.cons_cons (p q : Text) (line : Line) : (line.cons q).cons p = line.cons (p ++ q) := by
  simp [Line.cons]

theorem readLine_append (hp : Escaped p) (eol : EolType) (more : Text) :
    readLine eol (p ++ more) = (readLine eol more).map (Line.cons p) := by
  have hmap : ∀ (x : Except String Line) (q r : Text), (x.map (Line.cons r)).map (Line.cons q) =
      x.map (Line.cons (q ++ r)) := by
    intro x q r
    cases x with
    | error e => rfl
    | ok line => exact congrArg Except.ok (Line.cons_cons q r line)
  induction hp with
  | nil =>
    rw [List.nil_append]
    cases readLine eol more <;> rfl
  | plain hb ht hn hr _ ih =>
    rw [List.cons_append, readLine_plain eol hb hn hr, ih, hmap, List.singleton_append]
  | escape hd _ ih =>
    rw [List.cons_append, List.cons_append, readLine_escape, if_neg hd, ih, hmap]
    rfl

theorem readLine_payload (hp : Escaped p) {eol : EolType} (more : Text) :
    readLine eol (p ++ NEWLINE :: more) =
      if eol = .cr ∨ eol = .crnl then .error "literal newline found in data"
        else .ok ⟨p, .nl, more, false⟩ := by
  rw [readLine_append hp, readLine_newline]
  split
  · rfl
  · simp only [Except.map, Line.cons, List.append_nil]

theorem readReturn_key {eol : EolType} {tail : Text}
    (h : readReturn eol (cs ++ TAB :: tail) = .ok line) :
    line.text = [] ∧ ∃ v, line.rest = v ++ TAB :: tail ∧ v.length ≤ cs.length := by
  have hhead : (cs ++ TAB :: tail).head? = some NEWLINE →
      ∃ v, (cs ++ TAB :: tail).tail = v ++ TAB :: tail ∧
      v.length ≤ cs.length := by
    intro hh
    cases cs with
    | nil => exact absurd (Option.some.inj hh) (by decide)
    | cons c cs => exact ⟨cs, rfl, by simp⟩
  unfold readReturn at h
  split at h
  · split at h
    · rename_i hh
      cases h
      exact ⟨rfl, hhead hh⟩
    · cases h
      exact ⟨rfl, cs, rfl, le_refl _⟩
  · split at h
    · rename_i hh
      cases h
      exact ⟨rfl, hhead hh⟩
    · cases h
  · cases h
  · cases h
    exact ⟨rfl, cs, rfl, le_refl _⟩

def Line.EndsWithin (line : Line) (n : ℕ) (tail : Text) : Prop :=
  line.text.length < n ∧
    (line.last = false → ∃ v, line.rest = v ++ tail ∧ line.text.length + v.length < n)

theorem Line.EndsWithin.cons {n : ℕ} {tail : Text} (h : line.EndsWithin n tail) (cs : Text) :
    (line.cons cs).EndsWithin (cs.length + n) tail := by
  obtain ⟨hlt, hrest⟩ := h
  have hlen : (line.cons cs).text.length = cs.length + line.text.length := List.length_append
  refine ⟨by omega, fun hlast => ?_⟩
  obtain ⟨v, hv, hv_lt⟩ := hrest hlast
  exact ⟨v, hv, by omega⟩

theorem readLine_key {eol : EolType} {u more : Text} (hp : Escaped p)
    (h : readLine eol (u ++ TAB :: (p ++ NEWLINE :: more)) = .ok line) :
    (line = ⟨u ++ TAB :: p, .nl, more, false⟩ ∧ (BACKSLASH ∉ u → NEWLINE ∉ u ∧ RETURN ∉ u)) ∨
      line.EndsWithin u.length (TAB :: (p ++ NEWLINE :: more)) := by
  induction u using token_induction generalizing line with
  | nil =>
    rw [List.nil_append, readLine_plain eol (by decide) (by decide) (by decide),
      readLine_payload hp] at h
    split at h
    · cases h
    · cases h
      exact .inl ⟨rfl, by simp⟩
  | dangling =>
    rw [List.cons_append, List.nil_append, readLine_escape, if_neg (by decide),
      readLine_payload hp] at h
    split at h
    · cases h
    · cases h
      exact .inl ⟨rfl, fun hb => absurd List.mem_cons_self hb⟩
  | escape c cs ih =>
    rw [List.cons_append, List.cons_append, readLine_escape] at h
    split at h
    · obtain ⟨u, -, rfl⟩ := map_eq_ok.mp h
      exact .inr ⟨by simp, fun hf => by cases hf⟩
    · obtain ⟨l, hl, rfl⟩ := map_eq_ok.mp h
      rcases ih hl with ⟨rfl, -⟩ | hwithin
      · exact .inl ⟨rfl, fun hb => absurd List.mem_cons_self hb⟩
      · refine .inr ?_
        rw [show (BACKSLASH :: c :: cs).length =
          [BACKSLASH, c].length + cs.length from Nat.add_comm _ 2]
        exact hwithin.cons [BACKSLASH, c]
  | plain c cs hc ih =>
    rw [List.cons_append] at h
    by_cases hn : c = NEWLINE
    · subst hn
      rw [readLine_newline] at h
      split at h
      · cases h
      · cases h
        exact .inr ⟨by simp, fun _ => ⟨cs, rfl, by simp⟩⟩
    by_cases hr : c = RETURN
    · subst hr
      rw [readLine_return] at h
      obtain ⟨htext, v, hv, hlen⟩ := readReturn_key h
      refine .inr ⟨by simp [htext], fun _ => ⟨v, hv, ?_⟩⟩
      simp only [htext, List.length_nil, List.length_cons]
      omega
    · rw [readLine_plain eol hc hn hr] at h
      obtain ⟨l, hl, rfl⟩ := map_eq_ok.mp h
      rcases ih hl with ⟨rfl, hclean⟩ | hwithin
      · refine .inl ⟨rfl, fun hb => ?_⟩
        have := hclean fun hm => hb (List.mem_cons_of_mem _ hm)
        simp only [List.mem_cons, not_or]
        exact ⟨⟨Ne.symm hn, this.1⟩, Ne.symm hr, this.2⟩
      · refine .inr ?_
        rw [show (c :: cs).length = [c].length + cs.length from Nat.add_comm _ 1]
        exact hwithin.cons [c]

theorem splitFields_escape (c : UInt8) (cs : Text) :
    splitFields (BACKSLASH :: c :: cs) = consHead [BACKSLASH, c] (splitFields cs) := by
  rw [splitFields.eq_def]
  exact (if_neg (by decide)).trans (if_pos rfl)

theorem splitFields_tab (cs : Text) : splitFields (TAB :: cs) = [] :: splitFields cs := by
  rw [splitFields.eq_def]
  exact if_pos rfl

theorem splitFields_plain (hb : c ≠ BACKSLASH) (ht : c ≠ TAB) (cs : Text) :
    splitFields (c :: cs) = consHead [c] (splitFields cs) := by
  rw [splitFields.eq_def]
  exact (if_neg ht).trans (if_neg hb)

theorem consHead_eq {f : Text} {gs : List Text} (h : consHead cs gs = f :: fs) (hne : gs ≠ []) :
    ∃ g, gs = g :: fs ∧ f = cs ++ g := by
  cases gs with
  | nil => exact absurd rfl hne
  | cons g gs =>
    cases h
    exact ⟨g, rfl, rfl⟩

theorem splitFields_ne_nil (t : Text) : splitFields t ≠ [] := by
  have hcons : ∀ cs fs, consHead cs fs ≠ [] := by
    intro cs fs
    cases fs <;> simp [consHead]
  induction t using token_induction with
  | nil => simp [splitFields]
  | dangling => simp [splitFields, TAB, BACKSLASH]
  | escape c cs _ =>
    rw [splitFields_escape]
    exact hcons _ _
  | plain c cs hc _ =>
    by_cases ht : c = TAB
    · subst ht
      simp [splitFields_tab]
    · rw [splitFields_plain hc ht]
      exact hcons _ _

theorem consHead_consHead (p q : Text) (fs : List Text) :
    consHead p (consHead q fs) = consHead (p ++ q) fs := by
  cases fs with
  | nil => rfl
  | cons f fs => simp [consHead]

theorem splitFields_append (hp : Escaped p) (more : Text) :
    splitFields (p ++ more) = consHead p (splitFields more) := by
  induction hp with
  | nil =>
    cases hfields : splitFields more with
    | nil => exact absurd hfields (splitFields_ne_nil more)
    | cons f fs => exact hfields
  | plain hb ht _ _ _ ih =>
    rw [List.cons_append, splitFields_plain hb ht, ih, consHead_consHead, List.singleton_append]
  | escape _ _ ih =>
    rw [List.cons_append, List.cons_append, splitFields_escape, ih, consHead_consHead]
    rfl

theorem splitFields_escaped (hp : Escaped p) : splitFields p = [p] := by
  have happend := splitFields_append hp []
  rw [List.append_nil] at happend
  rw [happend, splitFields, consHead, List.append_nil]

theorem splitFields_first {f : Text} (h : splitFields t = f :: fs) (hne : fs ≠ []) :
    f.length < t.length := by
  induction t using token_induction generalizing f with
  | nil =>
    cases h
    exact absurd rfl hne
  | dangling =>
    simp only [splitFields, TAB, BACKSLASH] at h
    cases h
    exact absurd rfl hne
  | escape c cs ih =>
    rw [splitFields_escape] at h
    obtain ⟨g, hg, rfl⟩ := consHead_eq h (splitFields_ne_nil cs)
    have := ih hg
    simp only [List.length_append, List.length_cons, List.length_nil]
    omega
  | plain c cs hc ih =>
    by_cases ht : c = TAB
    · subst ht
      rw [splitFields_tab] at h
      cases h
      simp
    · rw [splitFields_plain hc ht] at h
      obtain ⟨g, hg, rfl⟩ := consHead_eq h (splitFields_ne_nil cs)
      have := ih hg
      simp only [List.length_append, List.length_cons, List.length_nil]
      omega

theorem splitFields_key {u f : Text} (hp : Escaped p) (h : splitFields (u ++ TAB :: p) = f :: fs)
    (hne : fs ≠ []) :
    f.length < u.length ∨ (f = u ∧ (BACKSLASH ∉ u → TAB ∉ u)) := by
  induction u using token_induction generalizing f with
  | nil =>
    rw [List.nil_append, splitFields_tab] at h
    cases h
    exact .inr ⟨rfl, fun _ => List.not_mem_nil⟩
  | dangling =>
    rw [List.cons_append, List.nil_append, splitFields_escape, splitFields_escaped hp] at h
    cases h
    exact absurd rfl hne
  | escape c cs ih =>
    rw [List.cons_append, List.cons_append, splitFields_escape] at h
    obtain ⟨g, hg, rfl⟩ := consHead_eq h (splitFields_ne_nil _)
    rcases ih hg with hlt | ⟨rfl, -⟩
    · refine .inl ?_
      simp only [List.length_append, List.length_cons, List.length_nil]
      omega
    · exact .inr ⟨rfl, fun hb => absurd List.mem_cons_self hb⟩
  | plain c cs hc ih =>
    rw [List.cons_append] at h
    by_cases ht : c = TAB
    · subst ht
      rw [splitFields_tab] at h
      cases h
      exact .inl (by simp)
    · rw [splitFields_plain hc ht] at h
      obtain ⟨g, hg, rfl⟩ := consHead_eq h (splitFields_ne_nil _)
      rcases ih hg with hlt | ⟨rfl, htab⟩
      · refine .inl ?_
        simp only [List.length_append, List.length_cons, List.length_nil]
        omega
      · refine .inr ⟨rfl, fun hb hm => ?_⟩
        rcases List.mem_cons.mp hm with he | hm
        · exact ht he.symm
        · exact htab (fun hb' => hb (List.mem_cons_of_mem _ hb')) hm

theorem unescape_length (t : Text) :
    (unescape t).1.length ≤ t.length ∧ (BACKSLASH ∈ t → (unescape t).1.length < t.length) := by
  fun_induction unescape t with
  | case1 => simp
  | case2 => simp
  | case3 d ds e r ih =>
    have hrest : e.2.1.length ≤ ds.length := escapedByte_rest d ds
    have hle : r.1.length ≤ e.2.1.length := ih.1
    simp only [List.length_cons]
    exact ⟨by omega, fun _ => by omega⟩
  | case4 c cs hc r ih =>
    have hle : r.1.length ≤ cs.length := ih.1
    simp only [List.length_cons]
    refine ⟨by omega, fun hm => ?_⟩
    rcases List.mem_cons.mp hm with he | hm
    · exact absurd he.symm hc
    · exact Nat.succ_lt_succ (ih.2 hm)

theorem unescape_cons (hc : c ≠ BACKSLASH) (cs : Text) :
    unescape (c :: cs) = (c :: (unescape cs).1, (unescape cs).2) := by
  rw [unescape.eq_def]
  simp only [if_neg hc]

theorem unescape_plain (h : BACKSLASH ∉ t) : unescape t = (t, false) := by
  induction t with
  | nil => simp [unescape]
  | cons c cs ih =>
    rw [List.mem_cons, not_or] at h
    rw [unescape_cons (Ne.symm h.1), ih h.2]

theorem unescape_escape {d : UInt8} (hoctal : isOctal d = false) (hhex : d ≠ 120) (ds : Text) :
    (unescape (BACKSLASH :: d :: ds)).1.length = (unescape ds).1.length + 1 := by
  have hrest : (escapedByte d ds).2.1 = ds := by
    unfold escapedByte
    rw [hoctal, if_neg Bool.false_ne_true, if_neg hhex]
    split_ifs <;> rfl
  rw [unescape.eq_def]
  simp only [if_true, hrest, List.length_cons]

def encodeRow (fields : List Text) : Text := [TAB].intercalate fields ++ [NEWLINE]

theorem encodeRow_cons_cons (f g : Text) (fields : List Text) :
    encodeRow (f :: g :: fields) = f ++ TAB :: encodeRow (g :: fields) := by
  simp [encodeRow]

theorem splitFields_intercalate {fields : List Text} (hne : fields ≠ [])
    (h : ∀ f ∈ fields, Escaped f) :
    splitFields ([TAB].intercalate fields) = fields := by
  induction fields with
  | nil => exact absurd rfl hne
  | cons f fields ih =>
    have hf := h f List.mem_cons_self
    cases fields with
    | nil =>
      rw [List.intercalate_singleton]
      exact splitFields_escaped hf
    | cons g fields =>
      have htail := ih (List.cons_ne_nil g fields) fun f' hf' => h f' (List.mem_cons_of_mem f hf')
      have htext : [TAB].intercalate (f :: g :: fields) = f ++
          TAB :: [TAB].intercalate (g :: fields) := by simp
      rw [htext, splitFields_append hf, splitFields_tab, htail, consHead, List.append_nil]

theorem readLine_encodeRow {eol : EolType} (heol : eol = .unknown ∨ eol = .nl) {fields : List Text}
    (h : ∀ f ∈ fields, Escaped f) (more : Text) :
    readLine eol (encodeRow fields ++ more) = .ok ⟨[TAB].intercalate fields, .nl, more, false⟩ := by
  have hend : readLine eol (NEWLINE :: more) = .ok ⟨[], .nl, more, false⟩ := by
    rw [readLine_newline]
    rcases heol with rfl | rfl <;> rfl
  induction fields with
  | nil => exact hend
  | cons f fields ih =>
    have hf := h f List.mem_cons_self
    cases fields with
    | nil =>
      have htext : encodeRow [f] ++ more = f ++ NEWLINE :: more := by simp [encodeRow]
      rw [htext, readLine_append hf, hend, List.intercalate_singleton]
      simp [Except.map, Line.cons]
    | cons g fields =>
      have htail := ih fun f' hf' => h f' (List.mem_cons_of_mem f hf')
      rw [encodeRow_cons_cons, List.append_assoc, List.cons_append, readLine_append hf,
        readLine_plain eol (by decide) (by decide) (by decide), htail]
      simp [Except.map, Line.cons]

theorem copyRows_encodeRows {row : List Text → Except String (List (Option Text))} {eol : EolType}
    (heol : eol = .unknown ∨ eol = .nl) {rows : List (List Text)}
    (hne : ∀ fields ∈ rows, fields ≠ []) (h : ∀ fields ∈ rows, ∀ f ∈ fields, Escaped f) :
    copyRows row eol (rows.flatMap encodeRow) = rows.mapM row := by
  induction rows generalizing eol with
  | nil => exact @copyRows_last row eol [] ⟨[], eol, [], true⟩ rfl rfl
  | cons fields rows ih =>
    have hline := readLine_encodeRow heol (h fields List.mem_cons_self) (rows.flatMap encodeRow)
    have htail := ih (Or.inr rfl) (fun fs hfs => hne fs (List.mem_cons_of_mem fields hfs))
      fun fs hfs => h fs (List.mem_cons_of_mem fields hfs)
    rw [List.flatMap_cons, copyRows_next hline rfl,
      splitFields_intercalate (hne fields List.mem_cons_self) (h fields List.mem_cons_self), htail,
      List.mapM_cons]
    rfl

def keyLength (row : List (Option Text)) : ℕ := ((row.headD none).getD []).length

def keySize (rows : List (List (Option Text))) : ℕ := (rows.map keyLength).sum

def encodeLines : List (Text × Text) → Text
  | [] => []
  | (k, p) :: rest => k ++ TAB :: (p ++ NEWLINE :: encodeLines rest)

theorem decodeField_length {marker raw : Text} {valid : Text → Bool} {v : Option Text}
    (h : decodeField marker valid raw = .ok v) :
    (v.getD []).length ≤ raw.length ∧ (BACKSLASH ∈ raw → (v.getD []).length < raw.length) := by
  obtain ⟨hle, hlt⟩ := unescape_length raw
  unfold decodeField at h
  split at h
  · cases h
    simp only [Option.getD_none, List.length_nil]
    exact ⟨Nat.zero_le _, fun hm => List.length_pos_of_mem hm⟩
  split at h
  · cases h
  · cases h
    exact ⟨hle, hlt⟩

theorem decodeField_of_unescape (valid : Text → Bool) (marker : Text) {s : Text}
    (h : unescape t = (s, false)) :
    decodeField marker valid t = .ok (if t = marker then none else some s) := by
  unfold decodeField
  rw [h]
  split <;> simp

theorem decodeField_plain (valid : Text → Bool) (marker : Text) (h : BACKSLASH ∉ t) :
    decodeField marker valid t = .ok (if t = marker then none else some t) :=
  decodeField_of_unescape valid marker (unescape_plain h)

theorem decodeField_eq_some {marker raw : Text} {valid : Text → Bool}
    (h : decodeField marker valid raw = .ok (some t)) : t = (unescape raw).1 := by
  unfold decodeField at h
  split at h
  · cases h
  split at h
  · cases h
  · exact (Option.some.inj (Except.ok.inj h)).symm

theorem decodeFields_key {marker : Text} {valid : Text → Bool} {raw : List Text}
    {row : List (Option Text)} (h : decodeFields marker valid 2 raw = .ok row) :
    ∃ f fs, raw = f :: fs ∧ fs ≠ [] ∧ keyLength row ≤ f.length ∧
      (BACKSLASH ∈ f → keyLength row < f.length) := by
  unfold decodeFields at h
  split at h
  · cases h
  split at h
  · cases h
  rename_i hmin hmax
  match raw, hmin, hmax, h with
  | [], hmin, _, _ => exact absurd (by simp) hmin
  | [f], hmin, _, _ => exact absurd (by simp) hmin
  | _ :: _ :: _ :: _, _, hmax, _ => exact absurd (by simp) hmax
  | [f, g], _, _, h =>
    cases hf : decodeField marker valid f with
    | error e => simp [hf, bind, Except.bind] at h
    | ok v =>
      cases hg : decodeField marker valid g with
      | error e => simp [hf, hg, bind, Except.bind] at h
      | ok w =>
        simp only [List.mapM_cons, List.mapM_nil, hf, hg, bind, Except.bind, pure, Except.pure] at h
        cases h
        exact ⟨f, [g], rfl, by simp, decodeField_length hf⟩

section Keys
variable {marker : Text} {valid : Text → Bool}

def keyBytes (ps : List (Text × Text)) : ℕ := (ps.map fun kp => kp.1.length).sum

def Bounded (rows : List (List (Option Text))) (n : ℕ) (plain : Prop) : Prop :=
  keySize rows ≤ n ∧ (keySize rows = n → plain)

theorem keySize_cons (row : List (Option Text)) (rows : List (List (Option Text))) :
    keySize (row :: rows) = keyLength row + keySize rows := by
  simp [keySize]

theorem Bounded.of_lt {rows : List (List (Option Text))} {n : ℕ} {plain : Prop}
    (h : keySize rows < n) :
    Bounded rows n plain := ⟨h.le, fun he => absurd he h.ne⟩

theorem copyRows_key {more : Text} {m : ℕ} {plain : Prop} (hp : Escaped p)
    (hmore : ∀ eol rows, copyRows (decodeFields marker valid 2) eol more = .ok rows →
      Bounded rows m plain)
    {u : Text} {eol : EolType} {rows : List (List (Option Text))}
    (h : copyRows (decodeFields marker valid 2) eol
      (u ++ TAB :: (p ++ NEWLINE :: more)) = .ok rows) :
    Bounded rows (u.length + m) (Plain u ∧ plain) := by
  induction hn : u.length using Nat.strong_induction_on generalizing u eol rows with
  | _ n ih =>
    subst hn
    cases hl : readLine eol (u ++ TAB :: (p ++ NEWLINE :: more)) with
    | error e =>
      rw [copyRows_error hl] at h
      cases h
    | ok line =>
      rcases readLine_key hp hl with ⟨rfl, hclean⟩ | ⟨hlt, hrest⟩
      · -- the line has the whole key and the payload
        rw [copyRows_next hl rfl] at h
        obtain ⟨row, hrow, hmap⟩ := bind_eq_ok.mp h
        obtain ⟨rows', hrows, rfl⟩ := map_eq_ok.mp hmap
        obtain ⟨f, fs, hsplit, hne, hle, hstrict⟩ := decodeFields_key hrow
        obtain ⟨hsize, hplain⟩ := hmore _ _ hrows
        rcases splitFields_key hp hsplit hne with hshort | ⟨rfl, htab⟩
        · refine .of_lt ?_
          rw [keySize_cons]
          omega
        · refine ⟨by rw [keySize_cons]; omega, fun heq => ?_⟩
          rw [keySize_cons] at heq
          have hb : BACKSLASH ∉ f := fun hm => by
            have := hstrict hm
            omega
          exact ⟨⟨hb, htab hb, (hclean hb).1, (hclean hb).2⟩, hplain (by omega)⟩
      · cases hlast : line.last with
        | true =>
          rw [copyRows_last hl hlast] at h
          split at h
          · cases h
            refine .of_lt ?_
            simp only [keySize, List.map_nil, List.sum_nil]
            omega
          · obtain ⟨row, hrow, rfl⟩ := map_eq_ok.mp h
            obtain ⟨f, fs, hsplit, hne, hle, -⟩ := decodeFields_key hrow
            have hfirst := splitFields_first hsplit hne
            refine .of_lt ?_
            rw [keySize_cons]
            simp only [keySize, List.map_nil, List.sum_nil]
            omega
        | false =>
          obtain ⟨v, hv, hlen⟩ := hrest hlast
          rw [copyRows_next hl hlast, hv] at h
          obtain ⟨row, hrow, hmap⟩ := bind_eq_ok.mp h
          obtain ⟨rows', hrows, rfl⟩ := map_eq_ok.mp hmap
          obtain ⟨f, fs, hsplit, hne, hle, -⟩ := decodeFields_key hrow
          have hfirst := splitFields_first hsplit hne
          have hrest' := (ih v.length (by omega) hrows rfl).1
          refine .of_lt ?_
          rw [keySize_cons]
          omega

theorem copyRows_bounded {eol : EolType} {ps : List (Text × Text)}
    {rows : List (List (Option Text))} (hps : ∀ kp ∈ ps, Escaped kp.2)
    (h : copyRows (decodeFields marker valid 2) eol (encodeLines ps) = .ok rows) :
    Bounded rows (keyBytes ps) (∀ kp ∈ ps, Plain kp.1) := by
  induction ps generalizing eol rows with
  | nil =>
    rw [encodeLines, @copyRows_last _ eol [] ⟨[], eol, [], true⟩ rfl rfl] at h
    cases h
    exact ⟨le_refl _, fun _ kp hkp => absurd hkp List.not_mem_nil⟩
  | cons kp ps ih =>
    have hrest : ∀ kp ∈ ps, Escaped kp.2 := fun kp hkp => hps kp (List.mem_cons_of_mem _ hkp)
    obtain ⟨hle, heq⟩ := copyRows_key (hps kp List.mem_cons_self) (fun _ _ h => ih hrest h) h
    have hsum : keyBytes (kp :: ps) = kp.1.length + keyBytes ps := by simp [keyBytes]
    rw [hsum]
    exact ⟨hle, fun he => List.forall_mem_cons.mpr (heq he)⟩

theorem encodeLines_eq (ps : List (Text × Text)) :
    encodeLines ps = (ps.map fun kp => [kp.1, kp.2]).flatMap encodeRow := by
  induction ps with
  | nil => rfl
  | cons kp ps ih =>
    rw [encodeLines, ih, List.map_cons, List.flatMap_cons]
    simp [encodeRow]

theorem copyRows_plain {eol : EolType} (heol : eol = .unknown ∨ eol = .nl) {ps : List (Text × Text)}
    (hps : ∀ kp ∈ ps, Escaped kp.2) (hkeys : ∀ kp ∈ ps, Plain kp.1) :
    copyRows (decodeFields marker valid 2) eol (encodeLines ps) =
      ps.mapM fun kp => decodeFields marker valid 2 [kp.1, kp.2] := by
  have hfields : ∀ fields ∈ ps.map fun kp => [kp.1, kp.2], ∀ f ∈ fields, Escaped f := by
    refine List.forall_mem_map.mpr fun kp hkp => ?_
    exact List.forall_mem_cons.mpr ⟨(hkeys kp hkp).escaped,
      List.forall_mem_singleton.mpr (hps kp hkp)⟩
  have hne : ∀ fields ∈ ps.map fun kp => [kp.1, kp.2], fields ≠ [] :=
    List.forall_mem_map.mpr fun kp _ => List.cons_ne_nil kp.1 [kp.2]
  rw [encodeLines_eq, copyRows_encodeRows heol hne hfields, List.mapM_map]
  rfl

end Keys

end Lantern.CopyText
