import Lantern.CopyText
import Lantern.ResultLists

set_option autoImplicit false

/-!
# Embeddings on their way into the temporary table

`db_exporter_worker` writes the records it receives into a COPY and, when it
streams, finishes the COPY from time to time and opens another one. The first COPY
has the null marker `NULL`, the later ones have the default marker. Text is a list
of bytes. How a float is written and read back is a parameter.
-/
namespace Lantern.EmbeddingExport
open ByteText Fallible CopyText

inductive ColumnType where
  | realArray
  | text
  deriving DecidableEq, Repr

def OPEN : UInt8 := 123
def CLOSE : UInt8 := 125

def nullText : Text := [78, 85, 76, 76]

def defaultNull : Text := [BACKSLASH, 78]

/-- Floats as `to_string` writes them and the database reads them. -/
structure FloatText (F : Type) where
  render : F → Text
  parse : Text → Option F
  parse_render : ∀ x, parse (render x) = some x
  nonempty : ∀ x, render x ≠ []
  plain : ∀ x, Plain (render x)
  no_comma : ∀ x, COMMA ∉ render x
  no_nul : ∀ x, 0 ∉ render x

def Value (F : Type) : ColumnType → Type
  | .realArray => List F
  | .text => Text

instance {F : Type} [DecidableEq F] : (c : ColumnType) → DecidableEq (Value F c)
  | .realArray => inferInstanceAs (DecidableEq (List F))
  | .text => inferInstanceAs (DecidableEq Text)

structure Record (F : Type) (c : ColumnType) where
  pk : Text
  value : Value F c

structure EmbeddingRecord where
  pk : Text
  record : Text

def replaceByte (b : UInt8) (new : Text) (t : Text) : Text :=
  t.flatMap fun c => if c = b then new else [c]

section Records
variable {F : Type} (ft : FloatText F)

def fromVec (pk : Text) (value : List F) : EmbeddingRecord where
  pk := pk
  record :=
    if 0 < value.length then [OPEN] ++
      (value.flatMap fun x => ft.render x ++ [COMMA]).dropLast ++ [CLOSE]
    else nullText

def fromString (pk value : Text) : EmbeddingRecord where
  pk := pk
  record :=
    if 0 < value.length then
      replaceByte TAB [BACKSLASH, 116] (replaceByte RETURN [BACKSLASH, 114]
        (replaceByte NEWLINE [BACKSLASH, 110] (replaceByte BACKSLASH [BACKSLASH, BACKSLASH] value)))
    else nullText

def toEmbeddingRecord {c : ColumnType} (r : Record F c) : EmbeddingRecord :=
  match c, r with
  | .realArray, r => fromVec ft r.pk r.value
  | .text, r => fromString r.pk r.value

end Records

/-- The bytes sent to the open COPY and those still in the buffer; `finished` are
    the COPYs before it, with their null markers. -/
structure Exporter where
  buf : Text
  sent : Text
  marker : Text
  finished : List (Text × Text)
  collectedRowCnt : ℕ
  processedRowCnt : ℕ

def chunkSize : ℕ := 1024 * 1024 * 10
def flushInterval : ℕ := 10
def minFlushRows : ℕ := 50
def maxFlushRows : ℕ := 1000

def startExport : Exporter := ⟨[], [], nullText, [], 0, 0⟩

def appendRow (buf : Text) (row : EmbeddingRecord) : Text :=
  buf ++ row.pk ++ [TAB] ++ row.record ++ [NEWLINE]

def MustFlush (collected elapsed : ℕ) : Prop :=
  maxFlushRows ≤ collected ∨ (flushInterval ≤ elapsed ∧ minFlushRows ≤ collected)

instance (collected elapsed : ℕ) : Decidable (MustFlush collected elapsed) := by
  unfold MustFlush
  infer_instance

def exportBatch (stream : Bool) (e : Exporter) (batch : List EmbeddingRecord × ℕ) : Exporter :=
  let buf := batch.1.foldl appendRow e.buf
  let full := chunkSize < buf.length
  let e : Exporter :=
    { e with
      buf := if full then [] else buf
      sent := if full then e.sent ++ buf else e.sent
      collectedRowCnt := e.collectedRowCnt + batch.1.length
      processedRowCnt := e.processedRowCnt + batch.1.length }
  if stream ∧ MustFlush e.collectedRowCnt batch.2 then
    { e with
      buf := []
      sent := []
      marker := defaultNull
      finished := e.finished ++ [(e.marker, e.sent ++ e.buf)]
      collectedRowCnt := 0 }
  else e

def finishExport (e : Exporter) : List (Text × Text) :=
  if e.processedRowCnt = 0 then e.finished else e.finished ++ [(e.marker, e.sent ++ e.buf)]

def dbExporterWorker (stream : Bool) (batches : List (List EmbeddingRecord × ℕ)) :
    List (Text × Text) :=
  finishExport (batches.foldl (exportBatch stream) startExport)

section Database
variable {F : Type} (ft : FloatText F) (valid : Text → Bool)

def splitCommas : Text → List Text
  | [] => [[]]
  | c :: cs => if c = COMMA then [] :: splitCommas cs else consHead [c] (splitCommas cs)

def arrayIn (t : Text) : Option (List F) :=
  match t with
  | [] => none
  | c :: body =>
    if c = OPEN ∧ body.getLast? = some CLOSE then
      if body.dropLast = [] then some [] else (splitCommas body.dropLast).mapM ft.parse
    else none

def columnIn (c : ColumnType) (t : Text) : Except String (Value F c) :=
  match c with
  | .realArray =>
    match arrayIn ft t with
    | some v => .ok v
    | none => .error "malformed array literal"
  | .text => .ok t

abbrev Row (F : Type) (c : ColumnType) := Option Text × Option (Value F c)

def toRow (c : ColumnType) : List (Option Text) → Except String (Row F c)
  | [pk, none] => .ok (pk, none)
  | [pk, some t] => (columnIn ft c t).map fun v => (pk, some v)
  | _ => .error "missing data for column"

/-- The rows of one COPY; bytes of value 0 are refused by every encoding. -/
def copyFrom (c : ColumnType) (copy : Text × Text) : Except String (List (Row F c)) :=
  if 0 ∈ copy.2 then .error "invalid byte sequence for encoding"
  else (copyRows (decodeFields copy.1 valid 2) .unknown copy.2).bind fun rows =>
    rows.mapM (toRow ft c)

def Value.isEmpty {c : ColumnType} (v : Value F c) : Bool :=
  match c, v with
  | .realArray, v => List.isEmpty v
  | .text, v => List.isEmpty v

def expected {c : ColumnType} (r : Record F c) : Row F c :=
  (some r.pk, if r.value.isEmpty then none else some r.value)

def exported (c : ColumnType) (stream : Bool) (batches : List (List (Record F c) × ℕ)) :
    Except String (List (Row F c)) :=
  ((dbExporterWorker stream (batches.map fun b => (b.1.map (toEmbeddingRecord ft), b.2))).mapM
    (copyFrom ft valid c)).map List.flatten

end Database

structure Groups (R : Type) where
  finished : List (List R)
  current : List R

def groupBatch {R : Type} (stream : Bool) (g : Groups R) (batch : List R × ℕ) : Groups R :=
  let current := g.current ++ batch.1
  if stream ∧ MustFlush current.length batch.2 then ⟨g.finished ++ [current], []⟩
    else ⟨g.finished, current⟩

def groupAll {R : Type} (stream : Bool) (batches : List (List R × ℕ)) : Groups R :=
  batches.foldl (groupBatch stream) ⟨[], []⟩

def Groups.copies {R : Type} (g : Groups R) : List (List R) := g.finished ++ [g.current]

def markerAt (i : ℕ) : Text := if i = 0 then nullText else defaultNull

def tagged {R : Type} (stream : Bool) (batches : List (List R × ℕ)) : List (Text × R) :=
  (groupAll stream batches).copies.zipIdx.flatMap fun g => g.1.map fun r => (markerAt g.2, r)

def ValueExportable {F : Type} (marker : Text) {c : ColumnType} (v : Value F c) : Prop :=
  match c, v with
  | .realArray, v => v = ([] : List F) → marker = nullText
  | .text, v => (v = ([] : Text) → marker = nullText) ∧ (0 : UInt8) ∉ (show Text from v) ∧
      ¬(marker = nullText ∧ v = nullText)

structure Exportable {F : Type} {c : ColumnType} (marker : Text) (r : Record F c) : Prop where
  pk_plain : Plain r.pk
  pk_no_nul : 0 ∉ r.pk
  pk_not_null : r.pk ≠ marker
  value : ValueExportable marker r.value

section Copies
variable {R : Type} (f : R → EmbeddingRecord)

def linesOf (rs : List R) : List (Text × Text) := rs.map fun r => ((f r).pk, (f r).record)

def copyOf (g : List R × ℕ) : Text × Text := (markerAt g.2, encodeLines (linesOf f g.1))

theorem encodeLines_append (as bs : List (Text × Text)) :
    encodeLines (as ++ bs) = encodeLines as ++ encodeLines bs := by
  induction as with
  | nil => rfl
  | cons a as ih => simp [encodeLines, ih]

theorem foldl_appendRow (rs : List R) (buf : Text) :
    (rs.map f).foldl appendRow buf = buf ++ encodeLines (linesOf f rs) := by
  induction rs generalizing buf with
  | nil => simp [linesOf, encodeLines]
  | cons r rs ih =>
    have hcons : encodeLines (linesOf f (r :: rs)) =
        (f r).pk ++ TAB :: ((f r).record ++ NEWLINE :: encodeLines (linesOf f rs)) := rfl
    rw [List.map_cons, List.foldl_cons, ih, hcons]
    simp [appendRow]

structure Writes (e : Exporter) (g : Groups R) : Prop where
  data : e.sent ++ e.buf = encodeLines (linesOf f g.current)
  marker : e.marker = markerAt g.finished.length
  finished : e.finished = g.finished.zipIdx.map (copyOf f)
  collected : e.collectedRowCnt = g.current.length
  processed : e.processedRowCnt = g.finished.flatten.length + g.current.length

theorem Writes.batch {f : R → EmbeddingRecord} {e : Exporter} {g : Groups R} (h : Writes f e g)
    (stream : Bool) (batch : List R × ℕ) :
    Writes f (exportBatch stream e (batch.1.map f, batch.2)) (groupBatch stream g batch) := by
  have hdata : ∀ full : Prop, ∀ [Decidable full],
      (if full then e.sent ++ (batch.1.map f).foldl appendRow e.buf else e.sent) ++
        (if full then [] else (batch.1.map f).foldl appendRow e.buf) =
      encodeLines (linesOf f (g.current ++ batch.1)) := by
    intro full _
    have happend : linesOf f (g.current ++ batch.1) = linesOf f g.current ++ linesOf f batch.1 :=
      List.map_append
    rw [foldl_appendRow, happend, encodeLines_append, ← h.data]
    split <;> simp
  have hcount : e.collectedRowCnt + batch.1.length = (g.current ++ batch.1).length := by
    rw [h.collected, List.length_append]
  have hprocessed := h.processed
  simp only [exportBatch, groupBatch, List.length_map, hcount]
  split
  · refine ⟨rfl, ?_, ?_, rfl, ?_⟩
    · simp [markerAt]
    · rw [hdata, h.marker, h.finished, List.zipIdx_append, List.map_append]
      simp [copyOf]
    · simp only [List.flatten_append, List.length_append, List.flatten_singleton, List.length_nil]
      omega
  · refine ⟨hdata _, h.marker, h.finished, rfl, ?_⟩
    simp only [List.length_append]
    omega

theorem writes_all (stream : Bool) (batches : List (List R × ℕ)) :
    Writes f ((batches.map fun b => (b.1.map f, b.2)).foldl (exportBatch stream) startExport)
      (groupAll stream batches) := by
  have hfold : ∀ e g, Writes f e g →
      Writes f ((batches.map fun b => (b.1.map f, b.2)).foldl (exportBatch stream) e)
        (batches.foldl (groupBatch stream) g) := by
    induction batches with
    | nil => exact fun e g h => h
    | cons b bs ih => exact fun e g h => ih _ _ (h.batch stream b)
  exact hfold _ _ ⟨rfl, rfl, rfl, rfl, rfl⟩

theorem groupAll_records (stream : Bool) (batches : List (List R × ℕ)) :
    (groupAll stream batches).copies.flatten = batches.flatMap fun b => b.1 := by
  have hfold : ∀ g, (batches.foldl (groupBatch stream) g).copies.flatten =
      g.copies.flatten ++ batches.flatMap fun b => b.1 := by
    induction batches with
    | nil => simp
    | cons b bs ih =>
      intro g
      rw [List.foldl_cons, ih, List.flatMap_cons, ← List.append_assoc]
      congr 1
      simp only [groupBatch]
      split <;> simp [Groups.copies]
  rw [groupAll, hfold]
  rfl

end Copies

def letters : List (UInt8 × UInt8) :=
  [(BACKSLASH, BACKSLASH), (NEWLINE, 110), (RETURN, 114), (TAB, 116)]

def escapeText (s : Text) : Text := s.flatMap (backslashed letters)

theorem replaceByte_flatMap (b : UInt8) (new : Text) (g : UInt8 → Text) (s : Text) :
    replaceByte b new (s.flatMap g) = s.flatMap fun c => replaceByte b new (g c) := by
  simp only [replaceByte, List.flatMap_assoc]

theorem fromString_record (pk : Text) {value : Text} (h : value ≠ []) :
    (fromString pk value).record = escapeText value := by
  have hpos : 0 < value.length := List.length_pos_iff.mpr h
  have hfirst : replaceByte BACKSLASH [BACKSLASH, BACKSLASH] value =
      value.flatMap fun c => if c = BACKSLASH then [BACKSLASH, BACKSLASH] else [c] := rfl
  simp only [fromString, if_pos hpos, hfirst, replaceByte_flatMap]
  refine congrArg (fun g => value.flatMap g) (funext fun c => ?_)
  rcases backslashed_cases letters c with ⟨d, hd, -⟩ | ⟨hno, hc⟩
  · simp only [letters, List.mem_cons, Prod.mk.injEq, List.not_mem_nil, or_false] at hd
    rcases hd with ⟨rfl, rfl⟩ | ⟨rfl, rfl⟩ | ⟨rfl, rfl⟩ | ⟨rfl, rfl⟩ <;> decide
  · have hb : c ≠ BACKSLASH := (hno (BACKSLASH, BACKSLASH) (by decide)).symm
    have hn : c ≠ NEWLINE := (hno (NEWLINE, 110) (by decide)).symm
    have hr : c ≠ RETURN := (hno (RETURN, 114) (by decide)).symm
    have ht : c ≠ TAB := (hno (TAB, 116) (by decide)).symm
    simp [hc, replaceByte, hb, hn, hr, ht]

theorem escapeText_cons (c : UInt8) (s : Text) :
    escapeText (c :: s) = backslashed letters c ++ escapeText s :=
  List.flatMap_cons

theorem escaped_cases (c : UInt8) :
    (∃ d, backslashed letters c = [BACKSLASH, d] ∧ d ≠ DOT ∧ d ≠ 78 ∧ d ≠ 0 ∧ c ≠ 0 ∧
        ∀ ds, escapedByte d ds = (c, ds, false)) ∨
      (backslashed letters c = [c] ∧ c ≠ BACKSLASH ∧ c ≠ TAB ∧ c ≠ NEWLINE ∧ c ≠ RETURN) := by
  rcases backslashed_cases letters c with ⟨d, hd, hc⟩ | ⟨hno, hc⟩
  · have hnamed : ∀ e ∈ letters, e.2 ≠ DOT ∧ e.2 ≠ 78 ∧ e.2 ≠ 0 ∧ e.1 ≠ 0 := by
      simp [letters, DOT, BACKSLASH, NEWLINE, RETURN, TAB]
    obtain ⟨hdot, hN, h0, hc0⟩ := hnamed _ hd
    refine .inl ⟨d, hc, hdot, hN, h0, hc0, fun ds => ?_⟩
    simp only [letters, List.mem_cons, Prod.mk.injEq, List.not_mem_nil, or_false] at hd
    rcases hd with ⟨rfl, rfl⟩ | ⟨rfl, rfl⟩ | ⟨rfl, rfl⟩ | ⟨rfl, rfl⟩ <;> rfl
  · exact .inr ⟨hc, (hno (BACKSLASH, BACKSLASH) (by decide)).symm,
      (hno (TAB, 116) (by decide)).symm, (hno (NEWLINE, 110) (by decide)).symm,
      (hno (RETURN, 114) (by decide)).symm⟩

theorem escaped_escapeText (s : Text) : Escaped (escapeText s) := by
  induction s with
  | nil => exact .nil
  | cons c s ih =>
    rw [escapeText_cons]
    rcases escaped_cases c with ⟨d, hd, hdot, -⟩ | ⟨hc, hb, ht, hn, hr⟩
    · rw [hd]
      exact .escape hdot ih
    · rw [hc]
      exact .plain hb ht hn hr ih

theorem unescape_escapeText (s : Text) : unescape (escapeText s) = (s, false) := by
  induction s with
  | nil => simp [escapeText, unescape]
  | cons c s ih =>
    rw [escapeText_cons]
    rcases escaped_cases c with ⟨d, hd, -, -, -, -, hbyte⟩ | ⟨hc, hb, -⟩
    · rw [hd, List.cons_append, List.cons_append, List.nil_append, unescape.eq_def]
      simp [hbyte, ih]
    · rw [hc, List.cons_append, List.nil_append, unescape.eq_def]
      simp [hb, ih]

theorem escapeText_ne_default (s : Text) : escapeText s ≠ defaultNull := by
  cases s with
  | nil => decide
  | cons c s =>
    rw [escapeText_cons]
    rcases escaped_cases c with ⟨d, hd, -, hN, -⟩ | ⟨hc, hb, -⟩
    · rw [hd, defaultNull]
      simp [hN]
    · rw [hc, defaultNull]
      simp [hb]

theorem nul_mem_escapeText {s : Text} : 0 ∈ escapeText s ↔ 0 ∈ s := by
  induction s with
  | nil => rfl
  | cons c s ih =>
    rw [escapeText_cons, List.mem_append, ih, List.mem_cons]
    rcases escaped_cases c with ⟨d, hd, -, -, h0, hc0, -⟩ | ⟨hc, -⟩
    · rw [hd]
      simp [h0.symm, hc0.symm, show (0 : UInt8) ≠ BACKSLASH by decide]
    · rw [hc]
      simp

theorem escapeText_eq_null {s : Text} : escapeText s = nullText ↔ s = nullText := by
  constructor
  · intro h
    have hback := unescape_escapeText s
    rw [h, unescape_plain (by decide)] at hback
    exact (Prod.mk.inj hback).1.symm
  · rintro rfl
    decide

section Vectors
variable {F : Type} (ft : FloatText F)

def joined : List F → Text
  | [] => []
  | [x] => ft.render x
  | x :: y :: v => ft.render x ++ COMMA :: joined (y :: v)

theorem joined_eq (v : List F) :
    (v.flatMap fun x => ft.render x ++ [COMMA]).dropLast = joined ft v := by
  induction v with
  | nil => rfl
  | cons x v ih =>
    cases v with
    | nil => simp [joined]
    | cons y v =>
      have hne : ((y :: v).flatMap fun x => ft.render x ++ [COMMA]) ≠ [] := by simp
      rw [List.flatMap_cons, List.dropLast_append_of_ne_nil hne, ih, joined]
      simp

theorem splitCommas_append {t : Text} (h : COMMA ∉ t) (s : Text) :
    splitCommas (t ++ COMMA :: s) = t :: splitCommas s := by
  induction t with
  | nil => simp [splitCommas]
  | cons c t ih =>
    rw [List.mem_cons, not_or] at h
    rw [List.cons_append, splitCommas, if_neg (Ne.symm h.1), ih h.2]
    rfl

theorem splitCommas_plain {t : Text} (h : COMMA ∉ t) : splitCommas t = [t] := by
  induction t with
  | nil => rfl
  | cons c t ih =>
    rw [List.mem_cons, not_or] at h
    rw [splitCommas, if_neg (Ne.symm h.1), ih h.2]
    rfl

theorem splitCommas_joined {v : List F} (h : v ≠ []) :
    splitCommas (joined ft v) = v.map ft.render := by
  induction v with
  | nil => exact absurd rfl h
  | cons x v ih =>
    cases v with
    | nil => exact splitCommas_plain (ft.no_comma x)
    | cons y v =>
      rw [joined, splitCommas_append (ft.no_comma x), ih (List.cons_ne_nil _ _)]
      rfl

theorem joined_ne_nil {v : List F} (h : v ≠ []) : joined ft v ≠ [] := by
  cases v with
  | nil => exact absurd rfl h
  | cons x v =>
    cases v with
    | nil => exact ft.nonempty x
    | cons y v => simp [joined]

theorem mapM_parse (v : List F) : (v.map ft.render).mapM ft.parse = some v := by
  induction v with
  | nil => rfl
  | cons x v ih => simp [ft.parse_render, ih]

theorem fromVec_record (pk : Text) {v : List F} (h : v ≠ []) :
    (fromVec ft pk v).record = OPEN :: (joined ft v ++ [CLOSE]) := by
  simp only [fromVec, if_pos (List.length_pos_iff.mpr h), joined_eq]
  rfl

theorem arrayIn_record {v : List F} (h : v ≠ []) :
    arrayIn ft (OPEN :: (joined ft v ++ [CLOSE])) = some v := by
  simp only [arrayIn, List.getLast?_append, List.getLast?_singleton, List.dropLast_concat]
  rw [if_pos (by simp), if_neg (joined_ne_nil ft h), splitCommas_joined ft h, mapM_parse]

theorem mem_joined {c : UInt8} {v : List F} (h : c ∈ joined ft v) : c = COMMA ∨
      ∃ x, c ∈ ft.render x := by
  induction v with
  | nil => cases h
  | cons x v ih =>
    cases v with
    | nil => exact .inr ⟨x, h⟩
    | cons y v =>
      rw [joined, List.mem_append, List.mem_cons] at h
      rcases h with h | h | h
      · exact .inr ⟨x, h⟩
      · exact .inl h
      · exact ih h

theorem vector_byte {c : UInt8} {v : List F} (h : c ∈ OPEN :: (joined ft v ++ [CLOSE])) :
    c = OPEN ∨ c = CLOSE ∨ c = COMMA ∨ ∃ x, c ∈ ft.render x := by
  rw [List.mem_cons, List.mem_append, List.mem_singleton] at h
  rcases h with h | h | h
  · exact .inl h
  · exact .inr (.inr (mem_joined ft h))
  · exact .inr (.inl h)

theorem not_mem_vector {b : UInt8} (hpunct : b ≠ OPEN ∧ b ≠ CLOSE ∧ b ≠ COMMA)
    (hb : ∀ x, b ∉ ft.render x) (v : List F) : b ∉ OPEN :: (joined ft v ++ [CLOSE]) := by
  intro h
  rcases vector_byte ft h with h | h | h | ⟨x, h⟩
  · exact hpunct.1 h
  · exact hpunct.2.1 h
  · exact hpunct.2.2 h
  · exact hb x h

theorem plain_vector (v : List F) : Plain (OPEN :: (joined ft v ++ [CLOSE])) where
  no_backslash := not_mem_vector ft (by decide) (fun x => (ft.plain x).no_backslash) v
  no_tab := not_mem_vector ft (by decide) (fun x => (ft.plain x).no_tab) v
  no_newline := not_mem_vector ft (by decide) (fun x => (ft.plain x).no_newline) v
  no_return := not_mem_vector ft (by decide) (fun x => (ft.plain x).no_return) v

end Vectors

section OneRecord
variable {F : Type} (ft : FloatText F) (valid : Text → Bool) {c : ColumnType}

theorem plain_nullText : Plain nullText := by decide

theorem record_empty {r : Record F c} (h : r.value.isEmpty = true) :
    (toEmbeddingRecord ft r).record = nullText := by
  cases c with
  | realArray =>
    have hv : r.value = ([] : List F) := List.isEmpty_iff.mp h
    simp only [toEmbeddingRecord, fromVec, hv]
    rfl
  | text =>
    have hv : r.value = ([] : Text) := List.isEmpty_iff.mp h
    simp only [toEmbeddingRecord, fromString, hv]
    rfl

theorem record_vector {r : Record F .realArray} (h : r.value ≠ ([] : List F)) :
    (toEmbeddingRecord ft r).record = OPEN :: (joined ft r.value ++ [CLOSE]) :=
  fromVec_record ft r.pk h

theorem record_text {r : Record F .text} (h : r.value ≠ ([] : Text)) :
    (toEmbeddingRecord ft r).record = escapeText r.value := fromString_record r.pk h

theorem escaped_record (r : Record F c) : Escaped (toEmbeddingRecord ft r).record := by
  cases hempty : r.value.isEmpty with
  | true =>
    rw [record_empty ft hempty]
    exact Plain.escaped plain_nullText
  | false =>
    cases c with
    | realArray =>
      rw [record_vector ft (List.isEmpty_eq_false_iff.mp hempty)]
      exact Plain.escaped (plain_vector ft r.value)
    | text =>
      rw [record_text ft (List.isEmpty_eq_false_iff.mp hempty)]
      exact escaped_escapeText r.value

def Value.hasNul (v : Value F c) : Prop :=
  match c, v with
  | .realArray, _ => False
  | .text, v => (0 : UInt8) ∈ (show Text from v)

theorem nul_mem_record (r : Record F c) : 0 ∈ (toEmbeddingRecord ft r).record ↔ r.value.hasNul := by
  cases hempty : r.value.isEmpty with
  | true =>
    rw [record_empty ft hempty]
    cases c with
    | realArray => exact iff_of_false (by decide) not_false
    | text =>
      have hv : r.value = ([] : Text) := List.isEmpty_iff.mp hempty
      exact iff_of_false (by decide) (by rw [Value.hasNul, hv]; exact List.not_mem_nil)
  | false =>
    cases c with
    | realArray =>
      rw [record_vector ft (List.isEmpty_eq_false_iff.mp hempty)]
      exact iff_of_false (not_mem_vector ft (by decide) ft.no_nul r.value) not_false
    | text =>
      rw [record_text ft (List.isEmpty_eq_false_iff.mp hempty)]
      exact nul_mem_escapeText

def decodeRecord (marker : Text) (r : Record F c) : Except String (Row F c) :=
  (decodeFields marker valid 2 [(toEmbeddingRecord ft r).pk,
    (toEmbeddingRecord ft r).record]).bind (toRow ft c)

theorem decodeFields_pair {marker a b : Text} {x y : Option Text}
    (ha : decodeField marker valid a = .ok x) (hb : decodeField marker valid b = .ok y) :
    decodeFields marker valid 2 [a, b] = .ok [x, y] := by
  simp only [decodeFields, List.mapM_cons, List.mapM_nil, ha, hb, bind, Except.bind,
    pure, Except.pure]
  rfl

theorem decodeField_escapeText (marker s : Text) :
    decodeField marker valid
      (escapeText s) = .ok (if escapeText s = marker then none else some s) :=
  decodeField_of_unescape valid marker (unescape_escapeText s)

theorem toEmbeddingRecord_pk (r : Record F c) : (toEmbeddingRecord ft r).pk = r.pk := by
  cases c <;> rfl

theorem decodeRecord_eq {marker : Text} {r : Record F c} (hpk : Plain r.pk) {y : Option Text}
    (hy : decodeField marker valid (toEmbeddingRecord ft r).record = .ok y) :
    decodeRecord ft valid marker r = toRow ft c [if r.pk = marker then none else some r.pk, y] := by
  have hx := decodeField_plain valid marker hpk.no_backslash
  rw [decodeRecord, toEmbeddingRecord_pk, decodeFields_pair valid hx hy]
  rfl

theorem pk_read {pk marker : Text} :
    (if pk = marker then none else some pk) = some pk ↔ pk ≠ marker := by
  by_cases h : pk = marker <;> simp [h]

theorem decodeRecord_empty {marker : Text} {r : Record F c} (hpk : Plain r.pk)
    (hempty : r.value.isEmpty = true) :
    decodeRecord ft valid marker r = .ok (expected r) ↔ r.pk ≠ marker ∧ marker = nullText := by
  have hy := decodeField_plain valid marker plain_nullText.no_backslash
  rw [← record_empty ft hempty] at hy
  rw [decodeRecord_eq ft valid hpk hy, record_empty ft hempty, expected, hempty]
  by_cases hm : nullText = marker
  · simp only [hm, if_true, toRow, Except.ok.injEq, Prod.mk.injEq, and_true]
    exact pk_read
  · rw [if_neg hm]
    refine iff_of_false ?_ fun h => hm h.2.symm
    cases c with
    | realArray =>
      intro h
      cases h
    | text =>
      intro h
      have hrow := Except.ok.inj h
      cases (Prod.mk.inj hrow).2

theorem decodeRecord_value {marker : Text} {r : Record F c} (hpk : Plain r.pk)
    (hempty : r.value.isEmpty = false) {t : Text}
    (hy : decodeField marker valid (toEmbeddingRecord ft r).record = .ok (some t))
    (hin : columnIn ft c t = .ok r.value) :
    decodeRecord ft valid marker r = .ok (expected r) ↔ r.pk ≠ marker := by
  rw [decodeRecord_eq ft valid hpk hy, expected, hempty, toRow, hin]
  simp only [Except.map, Bool.false_eq_true, if_false, Except.ok.injEq, Prod.mk.injEq, and_true]
  exact pk_read

theorem decodeRecord_iff {marker : Text} (hmarker : marker = nullText ∨ marker = defaultNull)
    {r : Record F c} (hpk : Plain r.pk) :
    (decodeRecord ft valid marker r = .ok (expected r) ∧ ¬r.value.hasNul) ↔
      r.pk ≠ marker ∧ ValueExportable marker r.value := by
  cases hempty : r.value.isEmpty with
  | true =>
    rw [decodeRecord_empty ft valid hpk hempty]
    cases c with
    | realArray =>
      have hv : r.value = ([] : List F) := List.isEmpty_iff.mp hempty
      exact ⟨fun h => ⟨h.1.1, fun _ => h.1.2⟩, fun h => ⟨⟨h.1, h.2 hv⟩, not_false⟩⟩
    | text =>
      have hv : r.value = ([] : Text) := List.isEmpty_iff.mp hempty
      have hnul : (0 : UInt8) ∉ (show Text from r.value) := by
        rw [hv]
        exact List.not_mem_nil
      have hnull : r.value ≠ nullText := by
        rw [hv]
        exact (List.cons_ne_nil _ _).symm
      exact ⟨fun h => ⟨h.1.1, fun _ => h.1.2, hnul, fun hn => hnull hn.2⟩, fun h =>
        ⟨⟨h.1, h.2.1 hv⟩, hnul⟩⟩
  | false =>
    cases c with
    | realArray =>
      have hv : r.value ≠ ([] : List F) := List.isEmpty_eq_false_iff.mp hempty
      have hy := decodeField_plain valid marker (plain_vector ft r.value).no_backslash
      have hne : OPEN :: (joined ft r.value ++ [CLOSE]) ≠ marker := by
        rcases hmarker with rfl | rfl
        · simp [nullText, OPEN]
        · simp [defaultNull, OPEN, BACKSLASH]
      rw [if_neg hne, ← record_vector ft hv] at hy
      have hin : columnIn ft .realArray (toEmbeddingRecord ft r).record = .ok r.value := by
        rw [record_vector ft hv]
        simp only [columnIn, arrayIn_record ft hv]
      rw [decodeRecord_value ft valid hpk hempty hy hin]
      exact ⟨fun h => ⟨h.1, fun he => absurd he hv⟩, fun h => ⟨h.1, not_false⟩⟩
    | text =>
      have hv : r.value ≠ ([] : Text) := List.isEmpty_eq_false_iff.mp hempty
      have hy := decodeField_escapeText valid marker r.value
      by_cases hnull : marker = nullText ∧ r.value = nullText
      · -- the string `NULL` is taken for null
        rw [if_pos (by rw [hnull.1, hnull.2]; decide), ← record_text ft hv] at hy
        rw [decodeRecord_eq ft valid hpk hy, expected, hempty]
        refine iff_of_false (fun h => ?_) fun h => h.2.2.2 hnull
        cases (Prod.mk.inj (Except.ok.inj h.1)).2
      · have hne : escapeText r.value ≠ marker := by
          rcases hmarker with rfl | rfl
          · exact fun he => hnull ⟨rfl, escapeText_eq_null.mp he⟩
          · exact escapeText_ne_default r.value
        rw [if_neg hne, ← record_text ft hv] at hy
        rw [decodeRecord_value ft valid hpk hempty hy rfl]
        exact ⟨fun h => ⟨h.1, fun he => absurd he hv, h.2, hnull⟩, fun h => ⟨h.1, h.2.2.1⟩⟩

end OneRecord

section AllCopies
variable {F : Type} (ft : FloatText F) (valid : Text → Bool) {c : ColumnType}

def rowsKey (rows : List (Row F c)) : ℕ := (rows.map fun row => (row.1.getD []).length).sum

theorem toRow_key {raw : List (Option Text)} {row : Row F c} (h : toRow ft c raw = .ok row) :
    (row.1.getD []).length = keyLength raw := by
  unfold toRow at h
  split at h
  · cases h
    rfl
  · obtain ⟨v, -, rfl⟩ := map_eq_ok.mp h
    rfl
  · cases h

theorem toRows_key {raws : List (List (Option Text))} {rows : List (Row F c)}
    (h : raws.mapM (toRow ft c) = .ok rows) : rowsKey rows = keySize raws := by
  induction raws generalizing rows with
  | nil =>
    rw [mapM_nil_ok] at h
    rw [h]
    rfl
  | cons raw raws ih =>
    obtain ⟨row, rows, hrow, hrows, rfl⟩ := mapM_cons_ok.mp h
    rw [keySize_cons, ← ih hrows, ← toRow_key ft hrow]
    simp [rowsKey]

theorem copyFrom_bounded {marker : Text} {ps : List (Text × Text)} {rows : List (Row F c)}
    (hps : ∀ kp ∈ ps, Escaped kp.2) (h : copyFrom ft valid c (marker, encodeLines ps) = .ok rows) :
    0 ∉ encodeLines ps ∧ rowsKey rows ≤ keyBytes ps ∧
      (rowsKey rows = keyBytes ps → ∀ kp ∈ ps, Plain kp.1) := by
  unfold copyFrom at h
  split at h
  · cases h
  rename_i hnul
  obtain ⟨raws, hraws, hrows⟩ := bind_eq_ok.mp h
  rw [toRows_key ft hrows]
  exact ⟨hnul, copyRows_bounded hps hraws⟩

theorem copyFrom_plain {marker : Text} {ps : List (Text × Text)} {rows : List (Row F c)}
    (hps : ∀ kp ∈ ps, Escaped kp.2) (hkeys : ∀ kp ∈ ps, Plain kp.1) (hnul : 0 ∉ encodeLines ps) :
    copyFrom ft valid c (marker, encodeLines ps) = .ok rows ↔
      (ps.mapM fun kp => (decodeFields marker valid 2 [kp.1, kp.2]).bind (toRow ft c)) =
        .ok rows := by
  rw [copyFrom, if_neg hnul, copyRows_plain (.inl rfl) hps hkeys]
  exact mapM_bind_ok

theorem mem_encodeLines {b : UInt8} (hb : b ≠ TAB ∧ b ≠ NEWLINE) {ps : List (Text × Text)} :
    b ∈ encodeLines ps ↔ ∃ kp ∈ ps, b ∈ kp.1 ∨ b ∈ kp.2 := by
  induction ps with
  | nil => simp [encodeLines]
  | cons kp ps ih => simp [encodeLines, hb.1, hb.2, ih, or_assoc]

variable (stream : Bool) (batches : List (List (Record F c) × ℕ))

def numbered : List (List (Record F c) × ℕ) := (groupAll stream batches).copies.zipIdx

theorem Writes.copies {R : Type} {f : R → EmbeddingRecord} {e : Exporter} {g : Groups R}
    (h : Writes f e g) :
    g.copies.zipIdx.map (copyOf f) = e.finished ++ [(e.marker, e.sent ++ e.buf)] := by
  rw [Groups.copies, List.zipIdx_append, List.map_append, h.finished, h.marker, h.data]
  simp [copyOf]

theorem copyFrom_nil (marker : Text) : copyFrom ft valid c (marker, []) = .ok [] := by
  have hrows : copyRows (decodeFields marker valid 2) .unknown [] = .ok [] :=
    @copyRows_last _ .unknown [] ⟨[], .unknown, [], true⟩ rfl rfl
  simp only [copyFrom, List.not_mem_nil, if_false, hrows]
  rfl

theorem exported_iff_copies {rows : List (Row F c)} :
    exported ft valid c stream batches = .ok rows ↔
      (((numbered stream batches).map (copyOf (toEmbeddingRecord ft))).mapM
        (copyFrom ft valid c)).map List.flatten =
        .ok rows := by
  have hw := writes_all (@toEmbeddingRecord F ft c) stream batches
  rw [numbered, hw.copies, exported, dbExporterWorker, finishExport]
  generalize (batches.map fun b =>
    (b.1.map (toEmbeddingRecord ft), b.2)).foldl (exportBatch stream) startExport = e
    at hw ⊢
  split
  · rename_i hzero
    have hlen := hw.processed
    have hcurrent : (groupAll stream batches).current = [] := List.length_eq_zero_iff.mp (by omega)
    have hdata := hw.data
    rw [hcurrent] at hdata
    rw [hdata, map_eq_ok, map_eq_ok]
    constructor
    · rintro ⟨rss, hrss, rfl⟩
      refine ⟨rss ++ [[]], mapM_append_ok.mpr ⟨rss, [[]], hrss, ?_, rfl⟩, by simp⟩
      exact mapM_cons_ok.mpr ⟨[], [], copyFrom_nil ft valid _, rfl, rfl⟩
    · rintro ⟨rss, hrss, rfl⟩
      obtain ⟨as, bs, has, hbs, rfl⟩ := mapM_append_ok.mp hrss
      obtain ⟨y, ys, hy, hys, rfl⟩ := mapM_cons_ok.mp hbs
      have hempty : y = [] := Except.ok.inj (hy.symm.trans (copyFrom_nil ft valid e.marker))
      rw [mapM_nil_ok] at hys
      exact ⟨as, has, by simp [hempty, hys]⟩
  · exact Iff.rfl

theorem mem_tagged {x : Text × Record F c} :
    x ∈ tagged stream batches ↔ ∃ g ∈ numbered stream batches, x.1 = markerAt g.2 ∧ x.2 ∈ g.1 := by
  obtain ⟨m, r⟩ := x
  simp only [tagged, numbered, List.mem_flatMap, List.mem_map, Prod.mk.injEq]
  constructor
  · rintro ⟨g, hg, r', hr', rfl, rfl⟩
    exact ⟨g, hg, rfl, hr'⟩
  · rintro ⟨g, hg, rfl, hr⟩
    exact ⟨g, hg, r, hr, rfl, rfl⟩

theorem tagged_records : (tagged stream batches).map Prod.snd = batches.flatMap fun b => b.1 := by
  rw [← groupAll_records stream batches, tagged, List.map_flatMap]
  simp only [List.map_map, Function.comp_def, List.map_id']
  rw [List.flatMap_def]
  exact congrArg List.flatten (List.zipIdx_map_fst 0 _)

theorem copies_bounded {gs : List (List (Record F c) × ℕ)} {rss : List (List (Row F c))}
    (h : (gs.map (copyOf (toEmbeddingRecord ft))).mapM (copyFrom ft valid c) = .ok rss) :
    rowsKey rss.flatten ≤ (gs.map fun g => (g.1.map fun r => r.pk.length).sum).sum ∧
      (∀ g ∈ gs, 0 ∉ encodeLines (linesOf (toEmbeddingRecord ft) g.1)) ∧
      (rowsKey rss.flatten = (gs.map fun g => (g.1.map fun r => r.pk.length).sum).sum →
        ∀ g ∈ gs, ∀ r ∈ g.1, Plain r.pk) := by
  induction gs generalizing rss with
  | nil =>
    rw [List.map_nil, mapM_nil_ok] at h
    rw [h]
    exact ⟨le_refl _, fun g hg => absurd hg List.not_mem_nil, fun _ g hg =>
      absurd hg List.not_mem_nil⟩
  | cons g gs ih =>
    obtain ⟨rows, rss, hrows, hrss, rfl⟩ := mapM_cons_ok.mp h
    obtain ⟨hle, hnuls, hplains⟩ := ih hrss
    have hescaped : ∀ kp ∈ linesOf (toEmbeddingRecord ft) g.1, Escaped kp.2 := by
      intro kp hkp
      obtain ⟨r, -, rfl⟩ := List.mem_map.mp hkp
      exact escaped_record ft r
    obtain ⟨hnul, hone, hplain⟩ := copyFrom_bounded ft valid hescaped hrows
    have hbytes :
        keyBytes (linesOf (toEmbeddingRecord ft) g.1) = (g.1.map fun r => r.pk.length).sum := by
      simp only [keyBytes, linesOf, List.map_map, Function.comp_def, toEmbeddingRecord_pk]
    have hsum : rowsKey (rows ++ rss.flatten) = rowsKey rows + rowsKey rss.flatten := by
      simp [rowsKey]
    rw [List.flatten_cons, hsum, List.map_cons, List.sum_cons]
    rw [hbytes] at hone hplain
    refine ⟨by omega, List.forall_mem_cons.mpr ⟨hnul, hnuls⟩, fun heq =>
      List.forall_mem_cons.mpr ⟨?_, ?_⟩⟩
    · intro r hr
      have := hplain (by omega) (_, _) (List.mem_map_of_mem hr)
      rwa [toEmbeddingRecord_pk] at this
    · exact hplains (by omega)

theorem rowsKey_expected (rs : List (Record F c)) :
    rowsKey (rs.map expected) = (rs.map fun r => r.pk.length).sum := by
  simp [rowsKey, expected, Function.comp_def]

theorem nul_free_iff (rs : List (Record F c)) :
    0 ∉ encodeLines (linesOf (toEmbeddingRecord ft) rs) ↔ ∀ r ∈ rs, 0 ∉ r.pk ∧ ¬r.value.hasNul := by
  rw [mem_encodeLines (by decide)]
  constructor
  · intro h r hr
    constructor
    · intro hnul
      exact h ⟨_, List.mem_map_of_mem hr, .inl (by rw [toEmbeddingRecord_pk]; exact hnul)⟩
    · intro hnul
      exact h ⟨_, List.mem_map_of_mem hr, .inr ((nul_mem_record ft r).mpr hnul)⟩
  · rintro h ⟨kp, hkp, hnul⟩
    obtain ⟨r, hr, rfl⟩ := List.mem_map.mp hkp
    rcases hnul with hnul | hnul
    · exact (h r hr).1 (by rwa [toEmbeddingRecord_pk] at hnul)
    · exact (h r hr).2 ((nul_mem_record ft r).mp hnul)

theorem exported_iff_records
    (hclean : ∀ x ∈ tagged stream batches, Plain x.2.pk ∧ 0 ∉ x.2.pk ∧ ¬x.2.value.hasNul)
    {rows : List (Row F c)} :
    exported ft valid c stream batches = .ok rows ↔
      (tagged stream batches).mapM (fun x => decodeRecord ft valid x.1 x.2) = .ok rows := by
  have hgroup : ∀ g ∈ numbered stream batches, ∀ r ∈ g.1, Plain r.pk ∧ 0 ∉ r.pk ∧ ¬r.value.hasNul :=
    fun g hg r hr => hclean (markerAt g.2, r) ((mem_tagged stream batches).mpr ⟨g, hg, rfl, hr⟩)
  rw [exported_iff_copies, tagged]
  refine Iff.trans ?_ (mapM_flatten_ok (fun g : List (Record F c) × ℕ => markerAt g.2) Prod.fst)
  rw [map_eq_ok, map_eq_ok]
  refine exists_congr fun rss => and_congr_left fun _ => ?_
  rw [List.mapM_map]
  refine mapM_congr_ok fun g hg rows => ?_
  have hlines : ∀ kp ∈ linesOf (toEmbeddingRecord ft) g.1, Escaped kp.2 ∧ Plain kp.1 := by
    intro kp hkp
    obtain ⟨r, hr, rfl⟩ := List.mem_map.mp hkp
    exact ⟨escaped_record ft r, by rw [toEmbeddingRecord_pk]; exact (hgroup g hg r hr).1⟩
  have hnul := (nul_free_iff ft g.1).mpr fun r hr => (hgroup g hg r hr).2
  have hplain :=
    @copyFrom_plain F ft valid c (markerAt g.2) (linesOf (toEmbeddingRecord ft) g.1) rows
    (fun kp hkp => (hlines kp hkp).1) (fun kp hkp => (hlines kp hkp).2) hnul
  rw [linesOf, List.mapM_map] at hplain
  exact hplain

theorem clean_of_exported (h : exported ft valid c stream batches =
      .ok ((batches.flatMap fun b => b.1).map expected)) :
    ∀ x ∈ tagged stream batches, Plain x.2.pk ∧ 0 ∉ x.2.pk ∧ ¬x.2.value.hasNul := by
  rw [exported_iff_copies, map_eq_ok] at h
  obtain ⟨rss, hrss, hrows⟩ := h
  obtain ⟨-, hnul, hplain⟩ := copies_bounded ft valid hrss
  have hall : ((numbered stream batches).map fun g => (g.1.map fun r => r.pk.length).sum).sum =
      ((batches.flatMap fun b => b.1).map fun r => r.pk.length).sum := by
    have hfst := List.zipIdx_map_fst 0 (groupAll stream batches).copies
    rw [← groupAll_records stream batches, List.map_flatten, List.sum_flatten, List.map_map,
      ← hfst, List.map_map]
    rfl
  rw [hrows, rowsKey_expected, hall] at hplain
  intro x hx
  obtain ⟨g, hg, -, hr⟩ := (mem_tagged stream batches).mp hx
  exact ⟨hplain rfl g hg x.2 hr, (nul_free_iff ft g.1).mp (hnul g hg) x.2 hr⟩

/-- All records arrive, each once and as it was, if and only if each of them can be
    exported by the COPY it is written to. -/
theorem exported_iff :
    exported ft valid c stream batches = .ok ((batches.flatMap fun b => b.1).map expected) ↔
      ∀ x ∈ tagged stream batches, Exportable x.1 x.2 := by
  have hmarker : ∀ x ∈ tagged stream batches, x.1 = nullText ∨ x.1 = defaultNull := by
    intro x hx
    obtain ⟨g, -, hm, -⟩ := (mem_tagged stream batches).mp hx
    rw [hm, markerAt]
    split
    · exact .inl rfl
    · exact .inr rfl
  have hrecords : (batches.flatMap fun b => b.1).map expected =
      (tagged stream batches).map fun x => expected x.2 := by
    rw [← tagged_records stream batches, List.map_map]
    rfl
  constructor
  · intro h
    have hclean := clean_of_exported ft valid stream batches h
    rw [exported_iff_records ft valid stream batches hclean, hrecords, mapM_map_ok] at h
    intro x hx
    obtain ⟨hplain, hpk, hnul⟩ := hclean x hx
    obtain ⟨hne, hvalue⟩ := (decodeRecord_iff ft valid (hmarker x hx) hplain).mp ⟨h x hx, hnul⟩
    exact ⟨hplain, hpk, hne, hvalue⟩
  · intro h
    have hread : ∀ x ∈ tagged stream batches, decodeRecord ft valid x.1 x.2 = .ok (expected x.2) ∧
        ¬x.2.value.hasNul :=
      fun x hx => (decodeRecord_iff ft valid (hmarker x hx) (h x hx).pk_plain).mpr
        ⟨(h x hx).pk_not_null, (h x hx).value⟩
    have hclean : ∀ x ∈ tagged stream batches, Plain x.2.pk ∧ 0 ∉ x.2.pk ∧ ¬x.2.value.hasNul :=
      fun x hx => ⟨(h x hx).pk_plain, (h x hx).pk_no_nul, (hread x hx).2⟩
    rw [exported_iff_records ft valid stream batches hclean, hrecords, mapM_map_ok]
    exact fun x hx => (hread x hx).1

end AllCopies

def bitText : FloatText Bool where
  render b := [if b then 49 else 48]
  parse t := if t = [49] then some true else if t = [48] then some false else none
  parse_render := by decide
  nonempty := by simp
  plain := by
    intro x
    cases x <;> exact ⟨by decide, by decide, by decide, by decide⟩
  no_comma := by decide
  no_nul := by decide

def textRecord (pk value : Text) : Record Bool .text := ⟨pk, value⟩

/-- A key with a tab is refused. The string `NULL` becomes null. After a flush, an
    empty value arrives as the string `NULL`, and an empty vector is refused. -/
theorem records_lost :
    exported bitText (fun _ => true) .text false [([textRecord [49, TAB] [50]], 0)] =
      .error "extra data after last expected column" ∧
    exported bitText (fun _ => true) .text false [([textRecord [49] nullText], 0)] =
      .ok [(some [49], none)] ∧
    exported bitText (fun _ => true) .text true
        [(List.replicate 50 (textRecord [49] [50]), 10), ([textRecord [51] []], 0)] =
      .ok (List.replicate 50 (expected (textRecord [49] [50])) ++ [(some [51], some nullText)]) ∧
    exported bitText (fun _ => true) .realArray true
        [(List.replicate 50 ⟨[49], [true]⟩, 10), ([⟨[51], ([] : List Bool)⟩], 0)] =
      .error "malformed array literal" := by
  refine ⟨?_, ?_, ?_, ?_⟩
  · decide +kernel
  · decide +kernel
  · decide +kernel
  · decide +kernel

end Lantern.EmbeddingExport
