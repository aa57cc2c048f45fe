import Lantern.ByteStrings
import Lantern.EmbeddingDaemon
import Lantern.ResultLists

set_option autoImplicit false

/-!
# The batches of a streamed job

`stream_job` copies the keys of the rows without an embedding into a table of its own and
takes batches of keys from there. A batch goes to the embedding worker as a filter, with
which the producer reads the rows. The keys are those of the job's key column, the filter
looks for them in the column `id`.
-/
namespace Lantern.JobBatches
open ByteStrings CharText Fallible
open EmbeddingDaemon (getCommonEmbeddingIgnoreFilters)

abbrev Row := Text → Option Text

structure Table where
  columns : List Text
  rows : List Row
  pk : Text
  pk_mem : pk ∈ columns
  pk_isSome : ∀ r ∈ rows, (r pk).isSome
  pk_nodup : (rows.map fun r => r pk).Nodup

inductive Failure where
  | undefinedColumn (name : Text)
  | badStatement (name : Text)
  deriving DecidableEq, Repr

def column (t : Table) (name : Text) : Except Failure (Row → Option Text) :=
  if name ∈ t.columns then .ok fun r => r name else .error (.undefinedColumn name)

theorem column_eq_ok {t : Table} {name : Text} {value : Row → Option Text} :
    column t name = .ok value ↔ name ∈ t.columns ∧ value = fun r => r name := by
  unfold column
  split_ifs with h
  · simp only [h, true_and, Except.ok.injEq]
    exact eq_comm
  · simp [h]

/-- What a name that is put into a statement without quotes stands for, if the statement can be
    read. -/
abbrev Reading := Text → Except Failure (Row → Option Text)

structure Job (t : Table) where
  src : Text
  out : Text
  batchSize : ℕ+
  src_mem : src ∈ t.columns
  out_mem : out ∈ t.columns

structure ScanOrder where
  scan : List Text → List Text
  perm : ∀ keys, (scan keys).Perm keys

def passes (value : Option Text) : Bool := (getCommonEmbeddingIgnoreFilters value).isSome

def Table.key (t : Table) (r : Row) : Text := (r t.pk).getD []

section Statements
variable (t : Table) (bare : Reading) (job : Job t)

def missingKeys : Except Failure (List Text) :=
  (bare job.out).bind fun out =>
    (column t job.src).map fun src =>
      (t.rows.filter fun r => (out r).isNone && passes (src r)).map t.key

/-- The keys in batches, as they are deleted from the table of keys. -/
def streamJob (order : ScanOrder) : Except Failure (List (List Text)) :=
  (missingKeys t bare job).map fun keys => chunks job.batchSize keys.length (order.scan keys)

def idName : Text := "id".toList

def producerWorker (rowIds : List Text) : Except Failure (List Row) :=
  (column t job.src).bind fun _ =>
    -- the filter names this column, whatever the key of the job is
    (column t idName).bind fun id =>
      (bare job.src).map fun src =>
        t.rows.filter fun r => (id r).any (· ∈ rowIds) && passes (src r)

def missing (r : Row) : Bool := (r job.out).isNone && passes (r job.src)

/-- Every batch can be read, and together they select the missing rows, each once. -/
def Streams (order : ScanOrder) : Prop :=
  ∃ batches selected, streamJob t bare job order = .ok batches ∧
    batches.mapM (producerWorker t bare job) = .ok selected ∧
    selected.flatten.Perm (t.rows.filter (missing t job))

end Statements

theorem filter_append_filter {rows : List Row} {p q : Row → Bool}
    (h : ∀ r, p r = true → q r = false) :
    (rows.filter p ++ rows.filter q).Perm (rows.filter fun r => p r || q r) := by
  induction rows with
  | nil => exact List.Perm.refl _
  | cons r rows ih =>
    cases hp : p r with
    | true =>
      rw [List.filter_cons_of_pos hp, List.filter_cons_of_neg (by simp [h r hp]),
        List.filter_cons_of_pos (by simp [hp])]
      exact ih.cons r
    | false =>
      rw [List.filter_cons_of_neg (by simp [hp])]
      cases hq : q r with
      | true =>
        rw [List.filter_cons_of_pos hq, List.filter_cons_of_pos (by simp [hq])]
        exact List.perm_middle.trans (ih.cons r)
      | false =>
        rw [List.filter_cons_of_neg (by simp [hq]), List.filter_cons_of_neg (by simp [hp, hq])]
        exact ih

def select (value : Row → Option Text) (keep : Row → Bool) (rows : List Row) (keys : List Text) :
    List Row :=
  rows.filter fun r => (value r).any (· ∈ keys) && keep r

variable {batches : List (List Text)}

theorem flatMap_select {value : Row → Option Text} {keep : Row → Bool} {rows : List Row}
    (h : batches.flatten.Nodup) :
    (batches.flatMap (select value keep rows)).Perm (select value keep rows batches.flatten) := by
  induction batches with
  | nil =>
    have hnone : select value keep rows [] = [] := by
      refine List.filter_eq_nil_iff.mpr fun r _ => ?_
      cases value r <;> simp
    rw [List.flatMap_nil, List.flatten_nil, hnone]
  | cons ids batches ih =>
    rw [List.flatten_cons, List.nodup_append] at h
    rw [List.flatMap_cons, List.flatten_cons]
    refine ((ih h.2.1).append_left _).trans ?_
    refine (filter_append_filter fun r hr =>
      ?_).trans (List.Perm.of_eq (List.filter_congr fun r _ => ?_))
    · cases hvalue : value r with
      | none => simp
      | some key =>
        have hkey : key ∈ ids := by simpa [hvalue] using (Bool.and_eq_true_iff.mp hr).1
        have hother : key ∉ batches.flatten := fun hmem => h.2.2 key hkey key hmem rfl
        simp only [Option.any_some, hother, decide_false, Bool.false_and]
    · cases value r with
      | none => simp
      | some key =>
        simp only [Option.any_some, List.mem_append, ← Bool.and_or_distrib_right, Bool.decide_or]

section Streams
variable {t : Table} {bare : Reading} {job : Job t} {order : ScanOrder}

theorem keys_nodup (t : Table) : (t.rows.map t.key).Nodup := by
  refine List.Nodup.of_map some ?_
  have hkeys : (t.rows.map t.key).map some = t.rows.map fun r => r t.pk := by
    rw [List.map_map]
    refine List.map_congr_left fun r hr => ?_
    obtain ⟨key, hkey⟩ := Option.isSome_iff_exists.mp (t.pk_isSome r hr)
    simp [Table.key, hkey]
  rw [hkeys]
  exact t.pk_nodup

def listedKeys (t : Table) (job : Job t) (out : Row → Option Text) : List Text :=
  (t.rows.filter fun r => (out r).isNone && passes (r job.src)).map t.key

theorem listedKeys_nodup (out : Row → Option Text) : (listedKeys t job out).Nodup :=
  (keys_nodup t).sublist (List.filter_sublist.map _)

theorem streamJob_eq_ok (h : streamJob t bare job order = .ok batches) :
    ∃ out, bare job.out = .ok out ∧ batches.flatten.Perm (listedKeys t job out) ∧
      (listedKeys t job out = [] → batches = []) := by
  obtain ⟨keys, hkeys, rfl⟩ := map_eq_ok.mp h
  obtain ⟨out, hout, hmap⟩ := bind_eq_ok.mp hkeys
  obtain ⟨src, hsrc, rfl⟩ := map_eq_ok.mp hmap
  obtain ⟨-, rfl⟩ := column_eq_ok.mp hsrc
  refine ⟨out, hout, ?_, fun hnil => ?_⟩
  · rw [flatten_chunks job.batchSize.pos (order.perm _).length_eq.le]
    exact order.perm _
  · change chunks _ (listedKeys t job out).length _ = []
    rw [hnil]
    rfl

theorem streamJob_returns {out : Row → Option Text} (h : bare job.out = .ok out) :
    ∃ batches, streamJob t bare job order = .ok batches := by
  have hsrc := column_eq_ok.mpr ⟨job.src_mem, rfl⟩
  exact ⟨_, map_eq_ok.mpr ⟨listedKeys t job out,
    bind_eq_ok.mpr ⟨out, h, map_eq_ok.mpr ⟨_, hsrc, rfl⟩⟩, rfl⟩⟩

theorem producerWorker_eq_ok {rowIds : List Text} {rows : List Row} :
    producerWorker t bare job rowIds = .ok rows ↔ idName ∈ t.columns ∧
      ∃ src, bare job.src = .ok src ∧
      rows = select (fun r => r idName) (fun r => passes (src r)) t.rows rowIds := by
  unfold producerWorker
  constructor
  · intro h
    obtain ⟨_, -, hid⟩ := bind_eq_ok.mp h
    obtain ⟨id, hcolumn, hsrc⟩ := bind_eq_ok.mp hid
    obtain ⟨src, hbare, rfl⟩ := map_eq_ok.mp hsrc
    obtain ⟨hmem, rfl⟩ := column_eq_ok.mp hcolumn
    exact ⟨hmem, src, hbare, rfl⟩
  · rintro ⟨hmem, src, hsrc, rfl⟩
    exact bind_eq_ok.mpr ⟨_, column_eq_ok.mpr ⟨job.src_mem, rfl⟩,
      bind_eq_ok.mpr ⟨_, column_eq_ok.mpr ⟨hmem, rfl⟩, map_eq_ok.mpr ⟨src, hsrc, rfl⟩⟩⟩

theorem selected_of_columns {keys : List Text} (hperm : batches.flatten.Perm keys)
    (hnodup : keys.Nodup) (hid : idName ∈ t.columns) {src : Row → Option Text}
    (hsrc : bare job.src = .ok src) :
    ∃ selected, batches.mapM (producerWorker t bare job) = .ok selected ∧
      selected.flatten.Perm
        (t.rows.filter fun r => (r idName).any (· ∈ keys) && passes (src r)) := by
  refine ⟨_, mapM_map_ok.mpr fun ids _ => producerWorker_eq_ok.mpr ⟨hid, src, hsrc, rfl⟩, ?_⟩
  rw [← List.flatMap_def]
  refine (flatMap_select (hperm.nodup_iff.mpr hnodup)).trans
    (List.Perm.of_eq (List.filter_congr fun r _ => ?_))
  simp only [hperm.mem_iff]

theorem filter_perm_iff {p q : Row → Bool} : (t.rows.filter p).Perm (t.rows.filter q) ↔
      ∀ r ∈ t.rows, p r = q r := by
  constructor
  · intro h r hr
    have hmem := h.mem_iff (a := r)
    rw [List.mem_filter, List.mem_filter, and_iff_right hr, and_iff_right hr] at hmem
    exact Bool.eq_iff_iff.mpr hmem
  · exact fun h => List.Perm.of_eq (List.filter_congr h)

def FindsMissing (t : Table) (bare : Reading) (job : Job t) (keys : List Text) : Prop :=
  idName ∈ t.columns ∧ ∃ src, bare job.src = .ok src ∧
    ∀ r ∈ t.rows, ((r idName).any (· ∈ keys) && passes (src r)) = missing t job r

theorem selects_missing_iff {keys : List Text} (hperm : batches.flatten.Perm keys)
    (hnodup : keys.Nodup) (hne : keys ≠ []) :
    (∃ selected, batches.mapM (producerWorker t bare job) = .ok selected ∧
        selected.flatten.Perm (t.rows.filter (missing t job))) ↔ FindsMissing t bare job keys := by
  constructor
  · rintro ⟨selected, hselected, hmissing⟩
    have hbatches : batches ≠ [] := by
      rintro rfl
      exact hne (List.nil_perm.mp hperm)
    obtain ⟨ids, hids⟩ := List.exists_mem_of_ne_nil _ hbatches
    obtain ⟨rows, hrows⟩ := mapM_ok_mem hselected hids
    obtain ⟨hid, src, hsrc, -⟩ := producerWorker_eq_ok.mp hrows
    obtain ⟨found, hfound, hflatten⟩ := selected_of_columns hperm hnodup hid hsrc
    cases hfound.symm.trans hselected
    exact ⟨hid, src, hsrc, filter_perm_iff.mp (hflatten.symm.trans hmissing)⟩
  · rintro ⟨hid, src, hsrc, hrows⟩
    obtain ⟨selected, hselected, hflatten⟩ := selected_of_columns hperm hnodup hid hsrc
    exact ⟨selected, hselected, hflatten.trans (filter_perm_iff.mpr hrows)⟩

/-- The batches of a job select the missing rows, each once, exactly if the destination column can
    be named without quotes and either nothing is listed or missing, or the listed keys find the
    missing rows in the column `id`. -/
theorem streams_iff (t : Table) (bare : Reading) (job : Job t) (order : ScanOrder) :
    Streams t bare job order ↔ ∃ out, bare job.out = .ok out ∧
      (listedKeys t job out = [] ∧ (∀ r ∈ t.rows, missing t job r = false) ∨
        listedKeys t job out ≠ [] ∧ FindsMissing t bare job (listedKeys t job out)) := by
  have hnone : t.rows.filter (missing t job) = [] ↔ ∀ r ∈ t.rows, missing t job r = false := by
    simp [List.filter_eq_nil_iff]
  constructor
  · rintro ⟨batches, selected, hbatches, hselected, hmissing⟩
    obtain ⟨out, hout, hperm, hempty⟩ := streamJob_eq_ok hbatches
    refine ⟨out, hout, ?_⟩
    by_cases hnil : listedKeys t job out = []
    · rw [hempty hnil, mapM_nil_ok] at hselected
      subst hselected
      exact Or.inl ⟨hnil, hnone.mp (List.nil_perm.mp hmissing)⟩
    · exact Or.inr ⟨hnil,
        (selects_missing_iff hperm (listedKeys_nodup out) hnil).mp ⟨selected, hselected, hmissing⟩⟩
  · rintro ⟨out, hout, hcases⟩
    obtain ⟨batches, hbatches⟩ := @streamJob_returns t bare job order out hout
    obtain ⟨out', hout', hperm, hempty⟩ := streamJob_eq_ok hbatches
    cases hout.symm.trans hout'
    rcases hcases with ⟨hnil, hall⟩ | ⟨hne, hfinds⟩
    · rw [hempty hnil] at hbatches
      exact ⟨[], [], hbatches, rfl, List.nil_perm.mpr (hnone.mpr hall)⟩
    · obtain ⟨selected, hselected, hmissing⟩ :=
        (selects_missing_iff hperm (listedKeys_nodup out) hne).mpr hfinds
      exact ⟨batches, selected, hbatches, hselected, hmissing⟩

end Streams

def oneRow : Row := fun name =>
  if name = "uid".toList then some "7".toList else if name = "body".toList then
    some "a".toList else none

def uidTable : Table where
  columns := ["uid".toList, "body".toList, "emb".toList]
  rows := [oneRow]
  pk := "uid".toList
  pk_mem := List.mem_cons_self
  pk_isSome := List.forall_mem_singleton.mpr rfl
  pk_nodup := List.nodup_singleton _

theorem body_mem : "body".toList ∈ uidTable.columns := by decide

theorem emb_mem : "emb".toList ∈ uidTable.columns := by decide

def uidJob : Job uidTable := ⟨"body".toList, "emb".toList, 100, body_mem, emb_mem⟩

def sameOrder : ScanOrder := ⟨id, List.Perm.refl⟩

theorem uidJob_fails : streamJob uidTable (column uidTable) uidJob sameOrder = .ok [["7".toList]] ∧
    producerWorker uidTable (column uidTable) uidJob
      ["7".toList] = .error (.undefinedColumn "id".toList) ∧
      missing uidTable uidJob oneRow = true ∧
        ¬ Streams uidTable (column uidTable) uidJob sameOrder := by
  have hbatches :
      streamJob uidTable (column uidTable) uidJob sameOrder = .ok [["7".toList]] := by decide
  have hfails :
      producerWorker uidTable (column uidTable) uidJob ["7".toList] =
      .error (.undefinedColumn "id".toList) := rfl
  refine ⟨hbatches, hfails, by decide, ?_⟩
  rintro ⟨batches, selected, hok, hselected, -⟩
  cases hbatches.symm.trans hok
  obtain ⟨rows, hrows⟩ := mapM_ok_mem hselected List.mem_cons_self
  cases hfails.symm.trans hrows

end Lantern.JobBatches
