import Lantern.EmbeddingDaemon
import Lantern.Fallible

set_option autoImplicit false

/-!
# Keys and answers in the embedding worker

The worker submits the texts of a batch to a runtime and pairs the items of the answer
with the keys of the rows. It takes both from the end, as many as there are items.
Whether there are as many as texts is not checked.
-/
namespace Lantern.EmbeddingWorker
open CharText Fallible
open EmbeddingDaemon (blank)

variable {Key Item : Type}

structure SourceRow (Key : Type) where
  pk : Key
  text : Option Text

structure RowBatch (Key : Type) where
  rows : List (SourceRow Key)
  nodup : (rows.map SourceRow.pk).Nodup

inductive Failure where
  | panicked (message : String)
  | runtimeError (message : String)
  deriving DecidableEq, Repr

def SourceRow.input (row : SourceRow Key) : Option (Key × Text) :=
  (row.text.filter fun text => !blank text).map fun text => (row.pk, text)

def RowBatch.inputs (batch : RowBatch Key) : List (Key × Text) :=
  batch.rows.filterMap SourceRow.input

def popPair (inputIds : List Key) (items : List Item) :
    Except Failure ((Key × Item) × List Key × List Item) :=
  match inputIds.getLast?, items.getLast? with
  | some id, some item => .ok ((id, item), inputIds.dropLast, items.dropLast)
  | _, _ => .error (.panicked "called Option::unwrap() on a None value")

def pairItems : ℕ → List Key → List Item → List (Key × Item) → Except Failure (List (Key × Item))
  | 0, _, _, responseData => .ok responseData
  | n + 1, inputIds, items, responseData =>
    (popPair inputIds items).bind fun popped =>
      pairItems n popped.2.1 popped.2.2 (responseData ++ [popped.1])

/-- One message of `embedding_worker`: the records that it forwards, if any. -/
def embeddingWorker (runtime : List Text → Except Failure (List Item)) (batch : RowBatch Key) :
    Except Failure (Option (List (Key × Item))) :=
  if batch.inputs = [] then .ok none
  else
    (runtime (batch.inputs.map Prod.snd)).bind fun answer =>
      (pairItems answer.length (batch.inputs.map Prod.fst) answer []).map some

theorem popPair_concat (ids : List Key) (id : Key) (items : List Item) (item : Item) :
    popPair (ids ++ [id]) (items ++ [item]) = .ok ((id, item), ids, items) := by
  simp [popPair]

theorem pairItems_eq (ids : List Key) (items : List Item) (responseData : List (Key × Item)) :
    pairItems items.length ids items responseData =
      if items.length ≤ ids.length then
        .ok (responseData ++ ((ids.drop (ids.length - items.length)).zip items).reverse)
      else .error (.panicked "called Option::unwrap() on a None value") := by
  -- both vectors are popped, so the induction takes the items from their end
  induction items using List.reverseRecOn generalizing ids responseData with
  | nil => simp [pairItems]
  | append_singleton items item ih =>
    rw [List.length_append, List.length_singleton, pairItems]
    cases ids using List.reverseRecOn with
    | nil => rfl
    | append_singleton ids id =>
      rw [popPair_concat]
      change pairItems items.length ids items _ = _
      rw [ih, List.length_append, List.length_singleton]
      by_cases hle : items.length ≤ ids.length
      · have hcut : (ids ++ [id]).drop (ids.length + 1 - (items.length + 1)) =
            ids.drop (ids.length - items.length) ++ [id] := by
          rw [Nat.add_sub_add_right, List.drop_append_of_le_length (Nat.sub_le _ _)]
        have hlength : (ids.drop (ids.length - items.length)).length = items.length := by
          rw [List.length_drop]
          omega
        rw [if_pos hle, if_pos (by omega), hcut, List.zip_append hlength, List.reverse_append]
        simp
      · rw [if_neg hle, if_neg (by omega)]

section Faithful
variable {Emb : Type} (batch : RowBatch Key) (answer : List Emb)

/-- The k-th item of the answer belongs to the k-th text: it goes through the worker with its
    number. The worker does not panic, each record has an item with the key of the row that it was
    computed from, and rows without a text, or with a blank one, are in no record. -/
def Faithful : Prop :=
  ∃ records, embeddingWorker (fun _ => .ok answer.zipIdx) batch = .ok records ∧
    (∀ record ∈ records.getD [], (batch.inputs.map Prod.fst)[record.2.2]? = some record.1) ∧
      ∀ row ∈ batch.rows, row.input = none → row.pk ∉ (records.getD []).map Prod.fst

variable {batch answer}

theorem SourceRow.pk_of_input {row : SourceRow Key} {e : Key × Text} (h : row.input = some e) :
    e.1 = row.pk := by
  obtain ⟨text, -, rfl⟩ := Option.map_eq_some_iff.mp h
  rfl

theorem inputIds_sublist (batch : RowBatch Key) :
    (batch.inputs.map Prod.fst).Sublist (batch.rows.map SourceRow.pk) := by
  unfold RowBatch.inputs
  induction batch.rows with
  | nil => exact List.Sublist.refl _
  | cons row rows ih =>
    cases hinput : row.input with
    | none =>
      rw [List.filterMap_cons_none hinput]
      exact ih.cons _
    | some e =>
      rw [List.filterMap_cons_some hinput, List.map_cons, List.map_cons,
        SourceRow.pk_of_input hinput]
      exact ih.cons_cons _

theorem pk_not_mem_inputIds {row : SourceRow Key} (hrow : row ∈ batch.rows)
    (hinput : row.input = none) :
    row.pk ∉ batch.inputs.map Prod.fst := by
  intro hmem
  obtain ⟨e, he, hpk⟩ := List.mem_map.mp hmem
  obtain ⟨other, hother, hsome⟩ := List.mem_filterMap.mp he
  have hsame : other = row :=
    List.inj_on_of_nodup_map batch.nodup hother hrow ((SourceRow.pk_of_input hsome).symm.trans hpk)
  rw [hsame, hinput] at hsome
  cases hsome

theorem embeddingWorker_eq (hinputs : batch.inputs ≠ []) :
    embeddingWorker (fun _ => .ok answer.zipIdx) batch =
      if answer.length ≤ batch.inputs.length then
        .ok (some (((batch.inputs.map Prod.fst).drop (batch.inputs.length - answer.length)).zip
          answer.zipIdx).reverse)
      else .error (.panicked "called Option::unwrap() on a None value") := by
  have hpairs := pairItems_eq (batch.inputs.map Prod.fst) answer.zipIdx []
  rw [List.length_zipIdx, List.length_map, List.nil_append] at hpairs
  unfold embeddingWorker
  rw [if_neg hinputs]
  change (pairItems answer.zipIdx.length _ _ _).map some = _
  rw [List.length_zipIdx, hpairs]
  split_ifs <;> rfl

theorem mem_records {m : ℕ} {record : Key × Emb × ℕ} :
    record ∈ (((batch.inputs.map Prod.fst).drop m).zip answer.zipIdx).reverse ↔
      ∃ k, (batch.inputs.map Prod.fst)[m + k]? = some record.1 ∧ answer[k]? = some record.2.1 ∧
        record.2.2 = k := by
  rw [List.mem_reverse, List.mem_iff_getElem?]
  refine exists_congr fun k => ?_
  rw [List.getElem?_zip_eq_some, List.getElem?_drop, List.getElem?_zipIdx, Option.map_eq_some_iff]
  refine and_congr_right fun _ => ?_
  constructor
  · rintro ⟨item, hitem, hrecord⟩
    rw [← hrecord]
    exact ⟨hitem, Nat.zero_add k⟩
  · rintro ⟨hitem, hnumber⟩
    exact ⟨record.2.1, hitem, Prod.ext rfl ((Nat.zero_add k).trans hnumber.symm)⟩

theorem last_record (hlength : answer.length ≤ batch.inputs.length) (hanswer : answer ≠ []) :
    ∃ record ∈ (((batch.inputs.map Prod.fst).drop (batch.inputs.length - answer.length)).zip
      answer.zipIdx).reverse, record.2.2 = answer.length - 1 ∧
        (batch.inputs.map Prod.fst)[batch.inputs.length - 1]? = some record.1 := by
  have hpos := List.length_pos_iff.mpr hanswer
  have hlast : batch.inputs.length - 1 < (batch.inputs.map Prod.fst).length := by
    rw [List.length_map]
    omega
  have hplace :
      batch.inputs.length - answer.length + (answer.length - 1) =
      batch.inputs.length - 1 := by omega
  refine ⟨((batch.inputs.map Prod.fst)[batch.inputs.length - 1], answer[answer.length - 1],
    answer.length - 1), ?_, rfl, List.getElem?_eq_getElem hlast⟩
  rw [mem_records]
  refine ⟨answer.length - 1, ?_, List.getElem?_eq_getElem _, rfl⟩
  rw [hplace]
  exact List.getElem?_eq_getElem hlast

theorem faithful_of_own (hinputs : batch.inputs ≠ [])
    (hlength : answer.length ≤ batch.inputs.length) (hown : ∀ record ∈
        (((batch.inputs.map Prod.fst).drop (batch.inputs.length - answer.length)).zip
          answer.zipIdx).reverse,
      (batch.inputs.map Prod.fst)[record.2.2]? = some record.1) : Faithful batch answer := by
  refine ⟨_, (embeddingWorker_eq hinputs).trans (if_pos hlength), hown, ?_⟩
  intro row hrow hinput hmem
  obtain ⟨record, hrecord, hpk⟩ := List.mem_map.mp hmem
  obtain ⟨k, hkey, -, -⟩ := mem_records.mp hrecord
  rw [hpk] at hkey
  exact pk_not_mem_inputIds hrow hinput (List.mem_of_getElem? hkey)

theorem faithful_of_lengths
    (h : batch.inputs = [] ∨ answer = [] ∨ answer.length = batch.inputs.length) :
    Faithful batch answer := by
  by_cases hinputs : batch.inputs = []
  · refine ⟨none, if_pos hinputs, ?_, ?_⟩
    · exact fun record hrecord => absurd hrecord List.not_mem_nil
    · exact fun row _ _ => List.not_mem_nil
  rcases h with hnone | rfl | hfull
  · exact absurd hnone hinputs
  · refine faithful_of_own hinputs (Nat.zero_le _) fun record hrecord => ?_
    obtain ⟨k, -, hitem, -⟩ := mem_records.mp hrecord
    cases hitem
  · refine faithful_of_own hinputs hfull.le fun record hrecord => ?_
    obtain ⟨k, hkey, -, hnumber⟩ := mem_records.mp hrecord
    rwa [hfull, Nat.sub_self, Nat.zero_add, ← hnumber] at hkey

/-- The worker does what it should exactly if nothing was submitted, or there is no item in the
    answer, or one for each text. -/
theorem faithful_iff (batch : RowBatch Key) (answer : List Emb) :
    Faithful batch answer ↔ batch.inputs = [] ∨ answer =
      [] ∨ answer.length = batch.inputs.length := by
  have hnodup : (batch.inputs.map Prod.fst).Nodup := batch.nodup.sublist (inputIds_sublist batch)
  constructor
  · rintro ⟨records, hrecords, hown, -⟩
    by_contra hcases
    obtain ⟨hinputs, hanswer, hlengths⟩ : batch.inputs ≠ [] ∧ answer ≠ [] ∧
        answer.length ≠ batch.inputs.length := by
      simpa only [not_or] using hcases
    rw [embeddingWorker_eq hinputs] at hrecords
    split_ifs at hrecords with hlength
    cases hrecords
    obtain ⟨record, hrecord, hnumber, hkey⟩ := last_record hlength hanswer
    have hpos := List.length_pos_iff.mpr hanswer
    have hsame :
        (batch.inputs.map Prod.fst)[answer.length - 1]? =
        (batch.inputs.map Prod.fst)[batch.inputs.length - 1]? := by
      rw [hkey, ← hnumber]
      exact hown record hrecord
    have hbound : answer.length - 1 < (batch.inputs.map Prod.fst).length := by
      rw [List.length_map]
      omega
    have hplaces := (List.getElem?_inj hbound hnodup).mp hsame
    omega
  · exact faithful_of_lengths

end Faithful

theorem nodup_twoRows :
    (([⟨1, some ['a']⟩, ⟨2, some ['b']⟩] : List (SourceRow ℕ)).map SourceRow.pk).Nodup := by decide

def twoRows : RowBatch ℕ := ⟨[⟨1, some ['a']⟩, ⟨2, some ['b']⟩], nodup_twoRows⟩

theorem twoRows_mispaired :
    embeddingWorker (fun _ => .ok ["first"].zipIdx) twoRows = .ok (some [(2, "first", 0)]) ∧
      (twoRows.inputs.map Prod.fst)[0]? = some 1 ∧
        embeddingWorker (fun _ => .ok ["first", "second", "third"].zipIdx) twoRows =
          .error (.panicked "called Option::unwrap() on a None value") := by
  have hinputs : twoRows.inputs = [(1, ['a']), (2, ['b'])] := by decide
  have hne : twoRows.inputs ≠ [] := by
    rw [hinputs]
    exact List.cons_ne_nil _ _
  refine ⟨?_, ?_, ?_⟩
  · rw [embeddingWorker_eq hne, hinputs]
    rfl
  · rw [hinputs]
    rfl
  · rw [embeddingWorker_eq hne, hinputs]
    rfl

end Lantern.EmbeddingWorker
