import Lantern.CopyText
import Lantern.JsonText
import Lantern.ResultLists

set_option autoImplicit false

/-!
# Rows inserted into a collection

The handler takes rows of JSON, prints the value of every column and sends the texts as
the lines of a `COPY`. Arrays get braces for their brackets; apart from that a text is
sent as it was printed, with the quotes and the escapes of JSON, and these mean
something else to the other side.
-/
namespace Lantern.CollectionInsert
open ByteText Fallible JsonText
open CopyText (TAB NEWLINE DOT Escaped Plain encodeRow copyRows decodeField decodeFields unescape)

inductive HandlerError where
  | badRequest (message : String)
  | internalServerError
  | panicked (message : String)
  deriving DecidableEq, Repr

def columnsOf : List Json → Option (List Text)
  | [] => none
  | .obj members :: _ => some (members.map Prod.fst)
  | _ :: rows => columnsOf rows

/-- `row[column]` is null for a missing key and for a row that is no object. -/
def valueAt (row : Json) (column : Text) : Json :=
  match row with
  | .obj members => (members.lookup column).getD .null
  | _ => .null

def unwrapNone : HandlerError := .panicked "called `Option::unwrap()` on a `None` value"

/-- The text of one element; the first and the last character are taken from it. -/
def renderCell (elem : Text) : Except HandlerError Text :=
  match elem with
  | [] => .error unwrapNone
  | [_] => .error unwrapNone
  | first :: rest =>
    if first = LBRACKET ∧ rest.getLast? = some RBRACKET then
      .ok (LBRACE :: (rest.dropLast ++ [RBRACE])) else .ok elem

def writeCell (columns : ℕ) (row : Json) (buf : Text) (column : Text × ℕ) :
    Except HandlerError Text :=
  (renderCell (valueAt row column.1).print).map fun elem =>
    buf ++ elem ++ if column.2 ≠ columns - 1 then [TAB] else []

structure Sink where
  sent : List Text
  buf : Text

def chunkSize : ℕ := 1024 * 1024 * 10

def Sink.send (sink : Sink) (buf : Text) : Sink :=
  if chunkSize < buf.length then ⟨sink.sent ++ [buf], []⟩ else ⟨sink.sent, buf⟩

def writeRow (columns : List Text) (sink : Sink) (row : Json) : Except HandlerError Sink :=
  (columns.zipIdx.foldlM (writeCell columns.length row) sink.buf).map fun buf =>
    sink.send (buf ++ [NEWLINE])

def Sink.finish (sink : Sink) : List Text :=
  if sink.buf = [] then sink.sent else sink.sent ++ [sink.buf]

def insertData (rows : List Json) : Except HandlerError (List Text) :=
  if rows = [] then .ok []
  else
    match columnsOf rows with
    | none => .error (.badRequest "all rows are empty")
    | some [] => .error .internalServerError -- `COPY` takes no empty list of columns
    | some columns =>
      (rows.foldlM (writeRow columns) ⟨[], []⟩).map Sink.finish

def readArray (t : Text) : Option (List Number) :=
  match t with
  | [] => none
  | c :: cs =>
    if c = LBRACE ∧ cs.getLast? = some RBRACE then
      if cs.dropLast = [] then some [] else (cs.dropLast.splitOn COMMA).mapM readNumber
    else none

def Denotes (field : Option Text) : Json → Prop
  | .null => field = none
  | .bool b => field = some (printBool b)
  | .num n => field.bind readNumber = some n
  | .str s => field = some s
  | .arr elements =>
    ∃ numbers : List Number, elements = numbers.map Json.num ∧ field.bind readArray = some numbers
  | .obj members => field.bind readJson = some (.obj members)

def Accepted : Json → Prop
  | .arr elements => ∃ numbers : List Number, elements = numbers.map Json.num
  | _ => True

/-- The data is one row of the table for each row that was given, with the values of
    its columns. `valid` is the check of the database encoding. -/
def Holds (valid : Text → Bool) (columns : List Text) (rows : List Json) (data : Text) : Prop :=
  ∃ table, copyRows (decodeFields wordNull valid columns.length) .unknown data = .ok table ∧
    List.Forall₂ (fun fields row =>
    List.Forall₂ (fun field column => Denotes field (valueAt row column)) fields columns)
      table rows

def Inserted (valid : Text → Bool) (columns : List Text) (rows : List Json) : Prop :=
  ∃ chunks, insertData rows = .ok chunks ∧ Holds valid columns rows chunks.flatten

def Transferable : Json → Prop
  | .num n => n.text.length ≠ 1
  | .str _ => False
  | .obj members => BACKSLASH ∉ (Json.obj members).print
  | _ => True

def cellField : Json → Text
  | .arr elements => LBRACE :: printItems RBRACE (elements.map Json.print)
  | v => v.print

def Renders (v : Json) : Prop := v.print.length ≠ 1

theorem cellField_eq_print (v : Json) (hv : ∀ elements, v ≠ .arr elements) :
    cellField v = v.print := by
  cases v with
  | arr elements => exact absurd rfl (hv elements)
  | _ => rfl

theorem renderCell_array (body : Text) :
    renderCell (LBRACKET :: (body ++ [RBRACKET])) = .ok (LBRACE :: (body ++ [RBRACE])) := by
  cases hrest : body ++ [RBRACKET] with
  | nil => exact absurd hrest (by simp)
  | cons d ds =>
    have hlast : (d :: ds).getLast? = some RBRACKET := by rw [← hrest, List.getLast?_concat]
    have hbody : (d :: ds).dropLast = body := by rw [← hrest, List.dropLast_concat]
    change (if _ then _ else _) = _
    rw [if_pos ⟨rfl, hlast⟩, hbody]

theorem renderCell_of_head {c : UInt8} {cs : Text} (hc : c ≠ LBRACKET) (t : Text) :
    renderCell (c :: cs) = .ok t ↔ (c :: cs).length ≠ 1 ∧ t = c :: cs := by
  cases cs with
  | nil => exact iff_of_false nofun fun h => h.1 rfl
  | cons d ds =>
    have hrender : renderCell (c :: d :: ds) = .ok (c :: d :: ds) := if_neg fun h => hc h.1
    rw [hrender, Except.ok.injEq]
    exact ⟨fun h => ⟨by simp, h.symm⟩, fun h => h.2.symm⟩

theorem print_head {v : Json} (hv : ∀ elements, v ≠ .arr elements) :
    ∃ c cs, v.print = c :: cs ∧ c ≠ LBRACKET := by
  cases v with
  | null => exact ⟨_, _, by rw [Json.print, wordNull], by decide⟩
  | bool b => cases b <;> exact ⟨_, _, by rw [Json.print]; rfl, by decide⟩
  | num n =>
    obtain ⟨c, cs, hc, hnumber⟩ := n.head
    exact ⟨c, cs, by rw [Json.print, hc], isNumberByte_ne hnumber (by decide)⟩
  | str s => exact ⟨_, _, by rw [Json.print, printString], by decide⟩
  | arr elements => exact absurd rfl (hv elements)
  | obj members => exact ⟨_, _, print_obj members, by decide⟩

theorem renderCell_print (v : Json) (t : Text) : renderCell v.print = .ok t ↔ Renders v ∧
      t = cellField v := by
  by_cases hv : ∀ elements, v ≠ .arr elements
  · obtain ⟨c, cs, hprint, hc⟩ := print_head hv
    rw [Renders, cellField_eq_print v hv, hprint]
    exact renderCell_of_head hc t
  · obtain ⟨elements, rfl⟩ := not_forall_not.mp hv
    have hrenders : Renders (.arr elements) := by
      rw [Renders, print_arr]
      simp [printItems]
    rw [print_arr, printItems, renderCell_array, Except.ok.injEq]
    exact ⟨fun h => ⟨hrenders, h.symm⟩, fun h => h.2.symm⟩

def rowFields (columns : List Text) (row : Json) : List Text :=
  columns.map fun column => cellField (valueAt row column)

variable {columns : List Text}

/-- The text up to the line end, put after what the buffer holds. The index of a column is
    compared with the last one, so all but that one are followed by a tab. -/
theorem foldl_cells (field : Text → Text) {last : ℕ} {k : ℕ} (hne : columns ≠ [])
    (hlast : last + 1 = k + columns.length) (buf : Text) :
    (columns.zipIdx k).foldl
      (fun buf column => buf ++ field column.1 ++ if column.2 ≠ last then [TAB] else []) buf =
      buf ++ [TAB].intercalate (columns.map field) := by
  induction columns generalizing k buf with
  | nil => exact absurd rfl hne
  | cons column columns ih =>
    rw [List.length_cons] at hlast
    rw [List.zipIdx_cons, List.foldl_cons]
    cases columns with
    | nil =>
      have hk : k = last := by
        rw [List.length_nil] at hlast
        omega
      simp [hk]
    | cons column' columns =>
      have hk : k ≠ last := by
        rw [List.length_cons] at hlast
        omega
      rw [ih (List.cons_ne_nil column' columns) (by omega), if_pos hk]
      simp

def Sink.bytes (sink : Sink) : Text := sink.sent.flatten ++ sink.buf

def Sink.put (columns : List Text) (sink : Sink) (row : Json) : Sink :=
  sink.send (sink.buf ++ encodeRow (rowFields columns row))

theorem Sink.bytes_put (columns : List Text) (sink : Sink) (row : Json) :
    (sink.put columns row).bytes = sink.bytes ++ encodeRow (rowFields columns row) := by
  unfold Sink.put Sink.send
  split <;> simp [Sink.bytes]

theorem Sink.flatten_finish (sink : Sink) : sink.finish.flatten = sink.bytes := by
  unfold Sink.finish
  split_ifs with hbuf <;> simp [Sink.bytes, hbuf]

theorem writeRow_eq_ok (hne : columns ≠ []) (row : Json) (sink sink' : Sink) :
    writeRow columns sink row = .ok sink' ↔
      (∀ column ∈ columns, Renders (valueAt row column)) ∧ sink' = sink.put columns row := by
  have hcell : ∀ column ∈ columns.zipIdx, ∀ buf t, writeCell columns.length row buf column = .ok t ↔
      Renders (valueAt row column.1) ∧
        t = buf ++ cellField (valueAt row column.1) ++
        if column.2 ≠ columns.length - 1 then [TAB] else [] := by
    intro column _ buf t
    exact map_eq_ok_of fun elem => renderCell_print (valueAt row column.1) elem
  have hlength : columns.length - 1 + 1 = 0 + columns.length := by
    have := List.length_pos_iff.mpr hne
    omega
  have hbuf := foldl_cells (fun column => cellField (valueAt row column)) hne hlength sink.buf
  have hrenders : (∀ column ∈ columns.zipIdx, Renders (valueAt row column.1)) ↔
      ∀ column ∈ columns, Renders (valueAt row column) := by
    constructor
    · intro h column hcolumn
      rw [← List.zipIdx_map_fst 0 columns, List.mem_map] at hcolumn
      obtain ⟨indexed, hindexed, rfl⟩ := hcolumn
      exact h indexed hindexed
    · exact fun h column hcolumn => h column.1 (List.fst_mem_of_mem_zipIdx hcolumn)
  rw [writeRow, map_eq_ok_of fun _ => foldlM_eq_ok hcell, hrenders, hbuf, Sink.put, encodeRow,
    ← List.append_assoc]
  rfl

theorem bytes_foldl_put (columns : List Text) (rows : List Json) (sink : Sink) :
    (rows.foldl (Sink.put columns) sink).bytes =
      sink.bytes ++ (rows.map (rowFields columns)).flatMap encodeRow := by
  induction rows generalizing sink with
  | nil => simp
  | cons row rows ih =>
    rw [List.foldl_cons, ih, Sink.bytes_put, List.map_cons, List.flatMap_cons, List.append_assoc]

theorem insertData_eq_ok {rows : List Json} (hcolumns : columnsOf rows = some columns)
    (hne : columns ≠ []) (p : Text → Prop) :
    (∃ chunks, insertData rows = .ok chunks ∧ p chunks.flatten) ↔
      (∀ row ∈ rows, ∀ column ∈ columns, Renders (valueAt row column)) ∧
        p ((rows.map (rowFields columns)).flatMap encodeRow) := by
  have hrows : rows ≠ [] := by
    rintro rfl
    cases hcolumns
  have hinsert : insertData rows = (rows.foldlM (writeRow columns) ⟨[], []⟩).map Sink.finish := by
    rw [insertData, if_neg hrows, hcolumns]
    cases columns with
    | nil => exact absurd rfl hne
    | cons column columns => rfl
  have hsent : ∀ chunks, insertData rows = .ok chunks ↔
      (∀ row ∈ rows, ∀ column ∈ columns, Renders (valueAt row column)) ∧
        chunks = (rows.foldl (Sink.put columns) ⟨[], []⟩).finish := by
    intro chunks
    rw [hinsert]
    exact map_eq_ok_of fun _ => foldlM_eq_ok fun row _ => writeRow_eq_ok hne row
  simp only [hsent]
  constructor
  · rintro ⟨_, ⟨h, rfl⟩, hp⟩
    rw [Sink.flatten_finish, bytes_foldl_put] at hp
    exact ⟨h, hp⟩
  · rintro ⟨h, hp⟩
    refine ⟨_, ⟨h, rfl⟩, ?_⟩
    rw [Sink.flatten_finish, bytes_foldl_put]
    exact hp

theorem hexDigit_ne {d x : UInt8} (hd : d.toNat < 16) (hx : x.toNat < 48 ∨ x.toNat = 92) :
    hexDigit d ≠ x := by
  have hten : (10 : UInt8).toNat = 10 := rfl
  have hdigit : (48 : UInt8).toNat = 48 := rfl
  have hletter : (87 : UInt8).toNat = 87 := rfl
  rintro rfl
  unfold hexDigit at hx
  split at hx
  · rename_i hlow
    rw [UInt8.lt_iff_toNat_lt] at hlow
    rw [UInt8.toNat_add] at hx
    omega
  · rename_i hlow
    rw [UInt8.lt_iff_toNat_lt] at hlow
    rw [UInt8.toNat_add] at hx
    omega

theorem escaped_hexDigit {d : UInt8} (hd : d.toNat < 16) : Escaped [hexDigit d] := by
  refine .plain (hexDigit_ne hd ?_) (hexDigit_ne hd ?_) (hexDigit_ne hd ?_) (hexDigit_ne hd ?_)
    .nil <;> decide

theorem nibbles_lt (c : UInt8) : (c / 16).toNat < 16 ∧ (c % 16).toNat < 16 := by
  rw [UInt8.toNat_div, UInt8.toNat_mod]
  exact ⟨Nat.div_lt_of_lt_mul c.toNat_lt, Nat.mod_lt c.toNat (by decide)⟩

theorem escaped_escapeByte (c : UInt8) : Escaped (escapeByte c) := by
  rcases escapeByte_cases c with ⟨d, hd, hc⟩ | hc | ⟨hplain, hc⟩
  · rw [hc]
    exact .escape (ne_of_mem_of_not_mem hd (by decide)) .nil
  · obtain ⟨hhigh, hlow⟩ := nibbles_lt c
    have hzeros : Escaped [48, 48] := Plain.escaped (by decide)
    rw [hc]
    exact .escape (by decide)
      (hzeros.append ((escaped_hexDigit hhigh).append (escaped_hexDigit hlow)))
  · have hne : ∀ {d : UInt8}, d < 32 → c ≠ d := by
      rintro d hd rfl
      exact hplain.not_control hd
    rw [hc]
    exact .plain hplain.ne_backslash (hne (by decide)) (hne (by decide)) (hne (by decide)) .nil

theorem escaped_printString (s : Text) : Escaped (printString s) := by
  have hquote : Escaped [QUOTE] := Plain.escaped (by decide)
  have hbody : Escaped (s.flatMap escapeByte) := by
    induction s with
    | nil => exact .nil
    | cons c cs ih =>
      rw [List.flatMap_cons]
      exact (escaped_escapeByte c).append ih
  exact hquote.append (hbody.append hquote)

theorem escaped_printItems {close : UInt8} (hclose : Escaped [close]) {items : List Text}
    (h : ∀ t ∈ items, Escaped t) :
    Escaped (printItems close items) := by
  induction items with
  | nil => exact hclose
  | cons t items ih =>
    have ht := h t List.mem_cons_self
    cases items with
    | nil =>
      rw [printItems, List.intercalate_singleton]
      exact ht.append hclose
    | cons u items =>
      have hcomma : Escaped [COMMA] := Plain.escaped (by decide)
      rw [printItems_cons_cons]
      exact ht.append (hcomma.append (ih fun t' ht' => h t' (List.mem_cons_of_mem t ht')))

theorem escaped_number (n : Number) : Escaped n.text := by
  have hne : ∀ {c : UInt8}, isNumberByte c = false → c ∉ n.text := by
    intro c hc hmem
    rw [n.all_bytes c hmem] at hc
    cases hc
  exact Plain.escaped ⟨hne (by decide), hne (by decide), hne (by decide), hne (by decide)⟩

theorem escaped_print (v : Json) : Escaped v.print := by
  induction v using Json.value_induction with
  | null =>
    rw [Json.print]
    exact Plain.escaped (by decide)
  | bool b =>
    rw [Json.print]
    cases b <;> exact Plain.escaped (by decide)
  | num n =>
    rw [Json.print]
    exact escaped_number n
  | str s =>
    rw [Json.print]
    exact escaped_printString s
  | arr elements ih =>
    rw [print_arr]
    have hopen : Escaped [LBRACKET] := Plain.escaped (by decide)
    exact hopen.append (escaped_printItems (Plain.escaped (by decide)) (List.forall_mem_map.mpr ih))
  | obj members ih =>
    rw [print_obj]
    have hopen : Escaped [LBRACE] := Plain.escaped (by decide)
    have hcolon : Escaped [COLON] := Plain.escaped (by decide)
    refine hopen.append
      (escaped_printItems (Plain.escaped (by decide)) (List.forall_mem_map.mpr fun m hm => ?_))
    exact (escaped_printString m.1).append (hcolon.append (ih m hm))

theorem escaped_cellField (v : Json) : Escaped (cellField v) := by
  by_cases hv : ∀ elements, v ≠ .arr elements
  · rw [cellField_eq_print v hv]
    exact escaped_print v
  · obtain ⟨elements, rfl⟩ := not_forall_not.mp hv
    have hopen : Escaped [LBRACE] := Plain.escaped (by decide)
    exact hopen.append (escaped_printItems (Plain.escaped (by decide))
      (List.forall_mem_map.mpr fun v _ => escaped_print v))

def Arrives (valid : Text → Bool) (v : Json) : Prop :=
  Renders v ∧ ∃ field, decodeField wordNull valid (cellField v) = .ok field ∧ Denotes field v

theorem inserted_iff {rows : List Json} (hcolumns : columnsOf rows = some columns)
    (hne : columns ≠ []) (valid : Text → Bool) :
    Inserted valid columns rows ↔ ∀ row ∈ rows, ∀ column ∈ columns, Arrives valid
      (valueAt row column) := by
  have hlines : copyRows (decodeFields wordNull valid columns.length) .unknown
      ((rows.map (rowFields columns)).flatMap encodeRow) =
        (rows.map (rowFields columns)).mapM (decodeFields wordNull valid columns.length) := by
    refine CopyText.copyRows_encodeRows (Or.inl rfl) ?_ ?_
    · exact List.forall_mem_map.mpr fun row _ => List.map_eq_nil_iff.not.mpr hne
    · exact List.forall_mem_map.mpr fun row _ => List.forall_mem_map.mpr fun column _ =>
        escaped_cellField _
  have hfields :
      ∀ row, (∃ fields,
      decodeFields wordNull valid columns.length (rowFields columns row) = .ok fields ∧
      List.Forall₂ (fun field column => Denotes field (valueAt row column)) fields columns) ↔
        ∀ column ∈ columns, ∃ field,
        decodeField wordNull valid (cellField (valueAt row column)) = .ok field ∧
          Denotes field (valueAt row column) := by
    intro row
    have hlength : (rowFields columns row).length = columns.length := List.length_map _
    rw [decodeFields, if_neg (by omega), if_neg (by omega), rowFields, mapM_forall₂_iff]
  rw [Inserted, insertData_eq_ok hcolumns hne, Holds, hlines, mapM_forall₂_iff]
  simp only [hfields, Arrives]
  constructor
  · exact fun h row hrow column hcolumn =>
      ⟨h.1 row hrow column hcolumn, h.2 row hrow column hcolumn⟩
  · exact fun h => ⟨fun row hrow column hcolumn => (h row hrow column hcolumn).1,
      fun row hrow column hcolumn => (h row hrow column hcolumn).2⟩

theorem decodeField_cell {valid : Text → Bool} {t : Text} (hnull : t ≠ wordNull)
    (hplain : BACKSLASH ∉ t) :
    decodeField wordNull valid t = .ok (some t) := by
  rw [CopyText.decodeField_plain valid wordNull hplain, if_neg hnull]

theorem Number.plain (n : Number) : BACKSLASH ∉ n.text := by
  intro hmem
  have := n.all_bytes _ hmem
  exact absurd this (by decide)

theorem ne_wordNull {c : UInt8} {cs : Text} (hc : c ≠ 110) : c :: cs ≠ wordNull := by
  rintro h
  exact hc (List.cons.inj h).1

theorem unescape_escapeByte (c : UInt8) (t : Text) :
    (unescape t).1.length < (unescape (escapeByte c ++ t)).1.length := by
  rcases escapeByte_cases c with ⟨d, hd, hc⟩ | hc | ⟨hplain, hc⟩
  · have hletters :
        [QUOTE, BACKSLASH, 98, 116, 110, 102, 114].any CopyText.isOctal = false := by decide
    have hoctal : CopyText.isOctal d = false := by simpa using List.any_eq_false.mp hletters d hd
    have hbyte := CopyText.unescape_escape hoctal (ne_of_mem_of_not_mem hd (by decide)) t
    rw [hc]
    exact Nat.lt_of_lt_of_eq (Nat.lt_succ_self _) hbyte.symm
  · -- The escape is lost on the way, and the digits of the byte stay.
    obtain ⟨hhigh, hlow⟩ := nibbles_lt c
    have hdigits : (unescape (48 :: 48 :: hexDigit (c / 16) :: hexDigit (c % 16) :: t)).1.length =
        (unescape t).1.length + 4 := by
      rw [CopyText.unescape_cons (by decide), CopyText.unescape_cons (by decide),
        CopyText.unescape_cons (hexDigit_ne hhigh (by decide)),
        CopyText.unescape_cons (hexDigit_ne hlow (by decide))]
      rfl
    have hbyte := @CopyText.unescape_escape 117 (by decide) (by decide)
      (48 :: 48 :: hexDigit (c / 16) :: hexDigit (c % 16) :: t)
    rw [hdigits] at hbyte
    rw [hc]
    exact Nat.lt_of_lt_of_eq (by omega) hbyte.symm
  · rw [hc, List.singleton_append, CopyText.unescape_cons hplain.ne_backslash]
    exact Nat.lt_succ_self _

theorem unescape_printString (s : Text) : s.length + 2 ≤ (unescape (printString s)).1.length := by
  have hbody : s.length + 1 ≤ (unescape (s.flatMap escapeByte ++ [QUOTE])).1.length := by
    induction s with
    | nil =>
      rw [List.flatMap_nil, List.nil_append, CopyText.unescape_cons (by decide)]
      exact Nat.le_add_left _ _
    | cons c cs ih =>
      have hc := unescape_escapeByte c (cs.flatMap escapeByte ++ [QUOTE])
      rw [List.flatMap_cons, List.append_assoc, List.length_cons]
      omega
  rw [printString, CopyText.unescape_cons (by decide)]
  exact Nat.succ_le_succ hbody

section Values
variable {valid : Text → Bool}

theorem arrives_null : Arrives valid .null := by
  have hprint : Json.null.print = wordNull := by rw [Json.print]
  refine ⟨?_, none, ?_, rfl⟩
  · rw [Renders, hprint]
    decide
  · have hcell : cellField .null = wordNull := hprint
    rw [hcell]
    exact if_pos rfl

theorem arrives_bool (b : Bool) : Arrives valid (.bool b) := by
  have hprint : (Json.bool b).print = printBool b := by rw [Json.print]
  refine ⟨?_, some (printBool b), ?_, rfl⟩
  · rw [Renders, hprint]
    cases b <;> decide
  · have hcell : cellField (.bool b) = printBool b := hprint
    rw [hcell]
    cases b <;> exact decodeField_cell (by decide) (by decide)

theorem arrives_num (n : Number) : Arrives valid (.num n) ↔ n.text.length ≠ 1 := by
  have hprint : (Json.num n).print = n.text := by rw [Json.print]
  have hnull : n.text ≠ wordNull := by
    obtain ⟨c, cs, hc, hnumber⟩ := n.head
    rw [hc]
    exact ne_wordNull (isNumberByte_ne hnumber (by decide))
  have hcell : cellField (.num n) = n.text := hprint
  rw [Arrives, Renders, hprint, hcell, decodeField_cell hnull (Number.plain n)]
  exact and_iff_left ⟨some n.text, rfl, readNumber_text n⟩

theorem not_arrives_str (s : Text) : ¬ Arrives valid (.str s) := by
  rintro ⟨-, field, hfield, rfl⟩
  have hlong := unescape_printString s
  have hcell : cellField (.str s) = printString s := by
    change (Json.str s).print = printString s
    rw [Json.print]
  rw [hcell] at hfield
  rw [← CopyText.decodeField_eq_some hfield] at hlong
  omega

theorem mapM_readNumber (numbers : List Number) :
    (numbers.map Number.text).mapM readNumber = some numbers := by
  induction numbers with
  | nil => rfl
  | cons n numbers ih =>
    rw [List.map_cons, List.mapM_cons, readNumber_text, ih]
    rfl

theorem readArray_braces (body : Text) :
    readArray (LBRACE :: (body ++ [RBRACE])) =
      if body = [] then some [] else (body.splitOn COMMA).mapM readNumber := by
  have hlast : (body ++ [RBRACE]).getLast? = some RBRACE := List.getLast?_concat
  unfold readArray
  dsimp only
  rw [if_pos ⟨rfl, hlast⟩, List.dropLast_concat]

theorem readArray_numbers (numbers : List Number) :
    readArray (LBRACE :: printItems RBRACE (numbers.map Number.text)) = some numbers := by
  rw [printItems, readArray_braces]
  cases numbers with
  | nil => rfl
  | cons n numbers =>
    have hcomma : ∀ t ∈ (n :: numbers).map Number.text, COMMA ∉ t := by
      refine List.forall_mem_map.mpr fun m _ hmem => ?_
      exact absurd (m.all_bytes COMMA hmem) (by decide)
    have hbody : [COMMA].intercalate ((n :: numbers).map Number.text) ≠ [] := by
      obtain ⟨c, cs, hc, -⟩ := n.head
      cases numbers <;> simp [hc]
    rw [if_neg hbody, List.splitOn_intercalate COMMA hcomma (by simp), mapM_readNumber]

theorem arrives_arr (numbers : List Number) : Arrives valid (.arr (numbers.map Json.num)) := by
  have hprint : (numbers.map Json.num).map Json.print = numbers.map Number.text := by
    rw [List.map_map]
    exact List.map_congr_left fun n _ => by rw [Function.comp_apply, Json.print]
  have hcell :
      cellField (.arr (numbers.map Json.num)) = LBRACE ::
      printItems RBRACE (numbers.map Number.text) := by
    rw [cellField, hprint]
  have hplain : BACKSLASH ∉ LBRACE :: printItems RBRACE (numbers.map Number.text) := by
    intro hmem
    rcases mem_of_mem_printItems (List.mem_of_ne_of_mem (by decide) hmem) with h | h | ⟨t, ht, hmem⟩
    · exact absurd h (by decide)
    · exact absurd h (by decide)
    · obtain ⟨n, -, rfl⟩ := List.mem_map.mp ht
      exact Number.plain n hmem
  refine ⟨?_, some (cellField (.arr (numbers.map Json.num))), ?_, numbers, rfl, ?_⟩
  · rw [Renders, print_arr]
    simp [printItems]
  · rw [hcell]
    exact decodeField_cell (ne_wordNull (by decide)) hplain
  · rw [hcell]
    exact readArray_numbers numbers

theorem arrives_obj (members : List (Text × Json)) :
    Arrives valid (.obj members) ↔ BACKSLASH ∉ (Json.obj members).print := by
  have hcell : cellField (.obj members) = (Json.obj members).print := rfl
  constructor
  · rintro ⟨-, field, hfield, hread⟩ hmem
    obtain ⟨t, rfl, ht⟩ := Option.bind_eq_some_iff.mp hread
    have hshort := (CopyText.decodeField_length hfield).2 hmem
    have hlong := print_length_le ht
    rw [hcell, Option.getD_some] at hshort
    omega
  · intro hplain
    refine ⟨?_, some (Json.obj members).print, ?_, readJson_print hplain⟩
    · rw [Renders, print_obj]
      simp [printItems]
    · rw [hcell]
      refine decodeField_cell ?_ hplain
      rw [print_obj]
      exact ne_wordNull (by decide)

theorem arrives_iff {v : Json} (hv : Accepted v) : Arrives valid v ↔ Transferable v := by
  cases v with
  | null => exact iff_of_true arrives_null trivial
  | bool b => exact iff_of_true (arrives_bool b) trivial
  | num n => exact arrives_num n
  | str s => exact iff_of_false (not_arrives_str s) id
  | arr elements =>
    obtain ⟨numbers, rfl⟩ := hv
    exact iff_of_true (arrives_arr numbers) trivial
  | obj members => exact arrives_obj members

end Values

/-- The table holds the rows if and only if no number has a single character, there are
    no strings, and no text of an object has a backslash. -/
theorem inserted_iff_transferable (valid : Text → Bool) {rows : List Json}
    (hcolumns : columnsOf rows = some columns) (hne : columns ≠ [])
    (haccepted : ∀ row ∈ rows, ∀ column ∈ columns, Accepted (valueAt row column)) :
    Inserted valid columns rows ↔ ∀ row ∈ rows, ∀ column ∈ columns, Transferable
      (valueAt row column) := by
  rw [inserted_iff hcolumns hne]
  constructor
  · exact fun h row hrow column hcolumn =>
      (arrives_iff (haccepted row hrow column hcolumn)).mp (h row hrow column hcolumn)
  · exact fun h row hrow column hcolumn =>
      (arrives_iff (haccepted row hrow column hcolumn)).mpr (h row hrow column hcolumn)

/-- `{"a": 12, "b": [3, 4], "c": {"k": true}}` and a row without the keys. -/
def sampleRows : List Json :=
  [.obj [([97], .num ⟨[49, 50], by decide⟩),
    ([98], .arr [.num ⟨[51], by decide⟩, .num ⟨[52], by decide⟩]),
    ([99], .obj [([107], .bool true)])], .obj []]

theorem sampleRows_inserted : Inserted (fun _ => true) [[97], [98], [99]] sampleRows := by
  have hobject : BACKSLASH ∉ (Json.obj [([107], .bool true)]).print := by
    rw [print_obj, List.map_singleton, printMember, Json.print]
    decide
  refine (inserted_iff_transferable (fun _ => true) rfl (by decide) ?_).mpr ?_
  · refine List.forall_mem_cons.mpr ⟨?_, List.forall_mem_singleton.mpr ?_⟩
    · simp only [List.forall_mem_cons]
      exact ⟨trivial, ⟨[⟨[51], by decide⟩, ⟨[52], by decide⟩], rfl⟩, trivial, List.forall_mem_nil _⟩
    · exact fun _ _ => trivial
  · refine List.forall_mem_cons.mpr ⟨?_, List.forall_mem_singleton.mpr ?_⟩
    · simp only [List.forall_mem_cons]
      exact ⟨(by decide : ([49, 50] : Text).length ≠ 1), trivial, hobject, List.forall_mem_nil _⟩
    · exact fun _ _ => trivial

theorem digit_panics_and_string_is_quoted :
    insertData [.obj [([97], .num ⟨[53], by decide⟩)]] = .error unwrapNone ∧
      insertData [.obj [([97], .str [98])]] = .ok [[QUOTE, 98, QUOTE, NEWLINE]] ∧
        copyRows (decodeFields wordNull (fun _ => true) 1) .unknown [QUOTE, 98, QUOTE, NEWLINE] =
            .ok [[some [QUOTE, 98, QUOTE]]] ∧
          ¬ Denotes (some [QUOTE, 98, QUOTE]) (.str [98]) ∧
            ¬ Inserted (fun _ => true) [[97]] [.obj [([97], .str [98])]] := by
  refine ⟨?_, ?_, ?_, ?_, ?_⟩
  · have hprint : (Json.num ⟨[53], by decide⟩).print = [53] := by rw [Json.print]
    simp [insertData, columnsOf, writeRow, writeCell, valueAt, hprint, renderCell, bind,
      Except.bind, Except.map]
  · have hprint : (Json.str [98]).print = [QUOTE, 98, QUOTE] := by
      rw [Json.print]
      decide
    have hcell : renderCell [QUOTE, 98, QUOTE] = .ok [QUOTE, 98, QUOTE] := by decide
    simp [insertData, columnsOf, writeRow, writeCell, valueAt, hprint, hcell, Except.map, Sink.send,
      Sink.finish, chunkSize, bind, Except.bind, pure, Except.pure]
  · have hescaped : Escaped [QUOTE, 98, QUOTE] := Plain.escaped (by decide)
    have hlines :=
      @CopyText.copyRows_encodeRows (decodeFields wordNull (fun _ => true) 1) .unknown (.inl rfl)
      [[[QUOTE, 98, QUOTE]]] (by decide) (by simpa using hescaped)
    refine hlines.trans ?_
    have hfield := @decodeField_cell (fun _ => true) [QUOTE, 98, QUOTE] (by decide) (by decide)
    simp [decodeFields, hfield, bind, Except.bind, pure, Except.pure]
  · exact fun h => absurd (Option.some.inj h) (by decide)
  · rw [inserted_iff rfl (by decide)]
    exact fun h =>
      not_arrives_str [98] (h _ (List.mem_singleton_self _) [97] (List.mem_singleton_self _))

end Lantern.CollectionInsert
