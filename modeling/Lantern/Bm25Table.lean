import Lantern.CharText
import Lantern.GroupedRows

set_option autoImplicit false

/-!
# The term table of a text column

`create_bm25_table` turns a table of documents into a table with one row for each term:
the documents that have the term, how often they have it, and how long they are. One
more row holds the number of documents and their average length.
-/
namespace Lantern.Bm25Table
open CharText GroupedRows

structure Document where
  id : ℤ
  text : Option Text
  deriving DecidableEq

structure DocumentTable where
  documents : List Document
  nodup : (documents.map Document.id).Nodup

abbrev Bloom := ℤ → Bool

structure TermRow (Term : Type) where
  term : Term
  termFreq : ℕ
  docIdsLen : ℕ
  docIdsBloom : Option Bloom
  docIds : List ℤ
  fqs : List ℕ
  docLens : List ℕ

/-- The row without a term, in which two columns have another meaning: the number of
    documents, and a hundred times their average length (null if no text has one). -/
structure CorpusRow where
  termFreq : ℕ
  docIdsLen : Option ℕ

structure TermTable (Term : Type) where
  rows : List (TermRow Term)
  corpus : CorpusRow

variable {d : Document}

section Create
variable {Term : Type} (stem : Text → List Term)

/-- The indexed column, `text_to_stem_array` of the text. -/
def Document.column (d : Document) : Option (List Term) := d.text.map stem

def Document.stems (d : Document) : List Term := (d.column stem).getD []

theorem text_of_stems {stem : Text → List Term} {term : Term} (h : term ∈ d.stems stem) :
    ∃ text, d.text = some text ∧ d.stems stem = stem text := by
  unfold Document.stems Document.column at h ⊢
  cases htext : d.text with
  | none =>
    rw [htext] at h
    exact absurd h List.not_mem_nil
  | some text => exact ⟨text, rfl, rfl⟩

variable [DecidableEq Term]

def termPairs (table : DocumentTable) : List (Document × Term) :=
  distinctOn (fun p => (p.1.id, p.2))
    (table.documents.flatMap fun d => (d.stems stem).map fun term => (d, term))

def termGroup (table : DocumentTable) (term : Term) : List (Document × Term) :=
  ((termPairs stem table).filter fun p => p.2 = term).insertionSort fun a b => a.1.id ≤ b.1.id

def termRow (arrayToBloom : List ℤ → Bloom) (threshold : ℕ) (table : DocumentTable) (term : Term) :
    TermRow Term :=
  let group := termGroup stem table term
  let docIds := group.map fun p => p.1.id
  { term := term
    termFreq := group.length
    docIdsLen := group.length
    docIdsBloom := if threshold < docIds.length then some (arrayToBloom docIds) else none
    docIds := docIds
    fqs := group.map fun p => (p.1.stems stem).count term
    docLens := group.map fun p => (p.1.stems stem).length }

/-- `AVG(cardinality(column)) * 100` as an integer: the nearest one, and half goes up. -/
def averageLength (lengths : List ℕ) : Option ℕ :=
  if lengths = [] then none else some ((200 * lengths.sum + lengths.length) / (2 * lengths.length))

def createBm25Table (arrayToBloom : List ℤ → Bloom) (threshold : ℕ) (table : DocumentTable) :
    TermTable Term :=
  { rows := ((termPairs stem table).map Prod.snd).dedup.map
      (termRow stem arrayToBloom threshold table)
    corpus :=
      { termFreq := table.documents.length
        docIdsLen := averageLength (table.documents.filterMap fun d =>
        (d.column stem).map List.length) } }

variable {stem} {table : DocumentTable}

theorem document_eq_of_id {e : Document} (hd : d ∈ table.documents) (he : e ∈ table.documents)
    (h : d.id = e.id) :
    d = e := List.inj_on_of_nodup_map table.nodup hd he h

theorem mem_termPairs {term : Term} :
    (d, term) ∈ termPairs stem table ↔ d ∈ table.documents ∧ term ∈ d.stems stem := by
  have hmem : ∀ p : Document × Term,
      p ∈ table.documents.flatMap (fun d => (d.stems stem).map fun term => (d, term)) ↔
        p.1 ∈ table.documents ∧ p.2 ∈ p.1.stems stem := by
    rintro ⟨d, term⟩
    simp [List.mem_flatMap]
  unfold termPairs
  rw [mem_distinctOn, hmem]
  rintro ⟨d, s⟩ hd ⟨e, t⟩ he h
  obtain ⟨hid, hterm⟩ := Prod.mk.inj h
  exact Prod.ext (document_eq_of_id ((hmem _).mp hd).1 ((hmem _).mp he).1 hid) hterm

theorem mem_termGroup {p : Document × Term} {term : Term} :
    p ∈ termGroup stem table term ↔ p.2 = term ∧ p.1 ∈ table.documents ∧ term ∈ p.1.stems stem := by
  obtain ⟨d, t⟩ := p
  unfold termGroup
  rw [List.mem_insertionSort, List.mem_filter, mem_termPairs, decide_eq_true_eq]
  constructor
  · rintro ⟨h, rfl⟩
    exact ⟨rfl, h⟩
  · rintro ⟨rfl, h⟩
    exact ⟨h, rfl⟩

theorem nodup_termGroup (term : Term) :
    ((termGroup stem table term).map fun p => p.1.id).Nodup := by
  have hkeys : ((termPairs stem table).map fun p => (p.1.id, p.2)).Nodup := distinctOn_nodup
  have hsub : ((termPairs stem table).filter fun p => p.2 = term).Sublist (termPairs stem table) :=
    List.filter_sublist
  have hfilter := hkeys.sublist (hsub.map fun p => (p.1.id, p.2))
  have hperm := List.perm_insertionSort (fun a b : Document × Term => a.1.id ≤ b.1.id)
    ((termPairs stem table).filter fun p => p.2 = term)
  refine (hperm.map _).nodup_iff.mpr ?_
  apply List.Nodup.of_map fun i : ℤ => (i, term)
  rw [List.map_map]
  refine (List.map_congr_left fun p hp => ?_) ▸ hfilter
  rw [List.mem_filter, decide_eq_true_eq] at hp
  exact congrArg (Prod.mk p.1.id) hp.2

theorem termGroup_length_le (term : Term) :
    (termGroup stem table term).length ≤ table.documents.length := by
  have hsub : (termGroup stem table term).map (fun p => p.1.id) ⊆
      table.documents.map Document.id := by
    intro i hi
    obtain ⟨p, hp, rfl⟩ := List.mem_map.mp hi
    exact List.mem_map_of_mem (mem_termGroup.mp hp).2.1
  have hle := ((nodup_termGroup term).subperm hsub).length_le
  rwa [List.length_map, List.length_map] at hle

theorem mem_createBm25Table {arrayToBloom : List ℤ → Bloom} {threshold : ℕ} {row : TermRow Term} :
    row ∈ (createBm25Table stem arrayToBloom threshold table).rows ↔
      ∃ term, (∃ d ∈ table.documents, term ∈ d.stems stem) ∧
        row = termRow stem arrayToBloom threshold table term := by
  unfold createBm25Table
  rw [List.mem_map]
  constructor
  · rintro ⟨term, hterm, rfl⟩
    obtain ⟨⟨d, t⟩, hp, rfl⟩ := List.mem_map.mp (List.mem_dedup.mp hterm)
    exact ⟨t, ⟨d, mem_termPairs.mp hp⟩, rfl⟩
  · rintro ⟨term, ⟨d, hd⟩, rfl⟩
    exact ⟨term, List.mem_dedup.mpr (List.mem_map.mpr ⟨(d, term), mem_termPairs.mpr hd, rfl⟩), rfl⟩

def TermRow.entries (row : TermRow Term) : List (ℤ × ℕ × ℕ) :=
  row.docIds.zip (row.fqs.zip row.docLens)

theorem entries_termRow (arrayToBloom : List ℤ → Bloom) (threshold : ℕ) (term : Term) :
    (termRow stem arrayToBloom threshold table term).entries =
      (termGroup stem table term).map fun p =>
        (p.1.id, (p.1.stems stem).count term, (p.1.stems stem).length) := by
  unfold TermRow.entries termRow
  dsimp only
  rw [List.zip_map', List.zip_map']

theorem filter_entries (arrayToBloom : List ℤ → Bloom) (threshold : ℕ) (term : Term)
    (hd : d ∈ table.documents) :
    ((termRow stem arrayToBloom threshold table term).entries.filter fun e => e.1 = d.id) =
      if term ∈ d.stems stem then
        [(d.id, (d.stems stem).count term, (d.stems stem).length)] else [] := by
  rw [entries_termRow, List.filter_map]
  have hid : ∀ p ∈ termGroup stem table term, p.1.id = d.id ↔ p = (d, term) := by
    intro p hp
    obtain ⟨hterm, hmem, -⟩ := mem_termGroup.mp hp
    constructor
    · intro h
      exact Prod.ext (document_eq_of_id hmem hd h) hterm
    · rintro rfl
      rfl
  have hfilter : (termGroup stem table term).filter ((fun e => decide (e.1 = d.id)) ∘ fun p =>
      (p.1.id, (p.1.stems stem).count term, (p.1.stems stem).length)) =
        (termGroup stem table term).filter (· == (d, term)) := by
    apply List.filter_congr
    intro p hp
    rw [Bool.eq_iff_iff, beq_iff_eq, ← hid p hp]
    exact decide_eq_true_iff
  rw [hfilter, List.filter_beq]
  have hcount :
      (termGroup stem table term).count (d, term) = if term ∈ d.stems stem then 1 else 0 := by
    have hnodup : (termGroup stem table term).Nodup := (nodup_termGroup term).of_map _
    rw [hnodup.count]
    simp [mem_termGroup, hd]
  rw [hcount]
  split_ifs <;> rfl

end Create

end Lantern.Bm25Table
