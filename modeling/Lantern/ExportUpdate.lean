import Lantern.EmbeddingExport

set_option autoImplicit false

/-!
# From the temporary table into the target table

Each COPY of the exporter ends with the statement of `get_update_query_and_col_type` and
a commit. The statement updates the target table from the temporary one, which it
empties. For completions the temporary column is text, and rows that cannot be cast go
to a table of failures. All parts of the statement see the tables as they were before
it.
-/
namespace Lantern.ExportUpdate
open ByteText Fallible CopyText EmbeddingExport

section Statement
variable {Key T V : Type} [DecidableEq Key]

structure UpdateArgs where
  checkColumnType : Bool
  failedRowsTable : Bool
  jobId : ℤ

/-- The types of the columns: the cast to the target's column, whether the key's type can be
    assigned to the integer column `row_id`, and to which integer. -/
structure Columns (Key T V : Type) where
  cast : T → Except String (Option V)
  assignable : Bool
  rowId : Key → Except String ℤ

abbrev TempRow (Key T : Type) := Option Key × Option T

structure Tables (Key T V : Type) where
  target : List (Key × Option V)
  nodup : (target.map Prod.fst).Nodup
  failed : List (ℤ × ℤ × Option T)

/-- The order in which the rows of a join arrive. -/
structure RowOrder (α : Type) where
  iter : List α → List α
  perm : ∀ rows, (iter rows).Perm rows

def castColumn (c : Columns Key T V) : Option T → Except String (Option V)
  | none => .ok none
  | some t => c.cast t

def ldbTryCast (c : Columns Key T V) (value : Option T) : Option V :=
  match castColumn c value with
  | .ok out => out
  | .error _ => none

def failedRows (c : Columns Key T V) (temp : List (TempRow Key T)) : List (TempRow Key T) :=
  temp.filter fun r => (ldbTryCast c r.2).isNone

def sameKey (a b : Option Key) : Bool := a.isSome && a = b

/-- The rows of the update. The deleted ones are still among them unless they are taken out by their
    keys. -/
def tempTableSubquery (args : UpdateArgs) (c : Columns Key T V) (temp : List (TempRow Key T)) :
    List (TempRow Key T) :=
  if args.failedRowsTable then temp.filter fun r => !(failedRows c temp).any fun f =>
    sameKey f.1 r.1 else temp

def setRow (order : RowOrder (Option Key × Option V)) (news : List (Option Key × Option V))
    (row : Key × Option V) :
    Key × Option V :=
  match (order.iter news).find? fun r => r.1 = some row.1 with
  | some r => (row.1, r.2)
  | none => row

theorem setRow_fst (order : RowOrder (Option Key × Option V)) (news : List (Option Key × Option V))
    (row : Key × Option V) : (setRow order news row).1 = row.1 := by
  unfold setRow
  split <;> rfl

def joinRows (c : Columns Key T V) (src : List (TempRow Key T)) (target : List (Key × Option V)) :
    Except String (List (Option Key × Option V)) :=
  (src.filter fun r => target.any fun row => r.1 = some row.1).mapM fun r =>
    (castColumn c r.2).map fun v => (r.1, v)

def insertFailed (args : UpdateArgs) (c : Columns Key T V) (rows : List (TempRow Key T)) :
    Except String (List (ℤ × ℤ × Option T)) :=
  rows.mapM fun r =>
    match r.1 with
    | none => .error "null value in column row_id"
    | some key => (c.rowId key).map fun rowId => (args.jobId, rowId, r.2)

def Tables.set (t : Tables Key T V) (order : RowOrder (Option Key × Option V))
    (news : List (Option Key × Option V)) (inserted : List (ℤ × ℤ × Option T)) :
    Tables Key T V where
  target := t.target.map (setRow order news)
  nodup := by
    rw [List.map_map]
    exact (List.map_congr_left fun row _ => setRow_fst order news row) ▸ t.nodup
  failed := t.failed ++ inserted

/-- The statement for the rows of one COPY. Without the check there are no `failed_rows` to insert,
    and their keys are inserted into a column of integers. -/
def updateStatement (args : UpdateArgs) (c : Columns Key T V)
    (order : RowOrder (Option Key × Option V)) (t : Tables Key T V) (temp : List (TempRow Key T)) :
    Except String (Tables Key T V) :=
  if args.failedRowsTable ∧ ¬ args.checkColumnType then .error "relation failed_rows does not exist"
  else if args.failedRowsTable ∧ ¬ c.assignable then .error "column row_id is of type integer"
  else
    (joinRows c (tempTableSubquery args c temp) t.target).bind fun news =>
      (if args.failedRowsTable then insertFailed args c (failedRows c temp)
        else .ok []).map (t.set order news)

def exportCopies {Copy : Type} (args : UpdateArgs) (c : Columns Key T V)
    (order : RowOrder (Option Key × Option V))
    (read : Copy → Except String (List (TempRow Key T))) : List Copy → Tables Key T V →
      Tables Key T V × Option String
  | [], t => (t, none)
  | copy :: rest, t =>
    match (read copy).bind (updateStatement args c order t) with
    | .ok t => exportCopies args c order read rest t
    | .error e => (t, some e)

variable {c : Columns Key T V} {rows rest : List (TempRow Key T)}

theorem tempTableSubquery_sublist (args : UpdateArgs) (c : Columns Key T V)
    (rows : List (TempRow Key T)) :
    (tempTableSubquery args c rows).Sublist rows := by
  unfold tempTableSubquery
  split_ifs
  · exact List.filter_sublist
  · exact List.Sublist.refl rows

/-- A row keeps its key, and its value as well unless it gets the one of a row with its key. -/
def MayBecome (c : Columns Key T V) (rows : List (TempRow Key T)) (old new : Key × Option V) :
    Prop :=
  new = old ∨ new.1 = old.1 ∧ ∃ r ∈ rows, r.1 = some old.1 ∧ castColumn c r.2 = .ok new.2

omit [DecidableEq Key] in
theorem MayBecome.trans {a b d : Key × Option V} (hab : MayBecome c rows a b)
    (hbd : MayBecome c rest b d) :
    MayBecome c (rows ++ rest) a d := by
  rcases hbd with rfl | ⟨hkey, r, hr, hsame, hcast⟩
  · rcases hab with rfl | ⟨hkey, r, hr, hrow⟩
    · exact Or.inl rfl
    · exact Or.inr ⟨hkey, r, List.mem_append_left _ hr, hrow⟩
  · have hfst : b.1 = a.1 := by
      rcases hab with rfl | ⟨hfst, -⟩
      · rfl
      · exact hfst
    exact Or.inr ⟨hkey.trans hfst, r, List.mem_append_right _ hr, hfst ▸ hsame, hcast⟩

structure Follows (c : Columns Key T V) (rows : List (TempRow Key T)) (t t' : Tables Key T V) :
    Prop where
  target : List.Forall₂ (MayBecome c rows) t.target t'.target
  failed : t.failed <+: t'.failed

omit [DecidableEq Key] in
theorem Follows.refl (t : Tables Key T V) : Follows c [] t t :=
  ⟨List.forall₂_same.mpr fun _ _ => Or.inl rfl, List.prefix_rfl⟩

omit [DecidableEq Key] in
theorem forall₂_mayBecome {xs ys zs : List (Key × Option V)}
    (hxy : List.Forall₂ (MayBecome c rows) xs ys) (hyz : List.Forall₂ (MayBecome c rest) ys zs) :
    List.Forall₂ (MayBecome c (rows ++ rest)) xs zs := by
  induction hxy generalizing zs with
  | nil =>
    cases hyz
    exact .nil
  | cons hab _ ih =>
    cases hyz with
    | cons hbd hrest => exact .cons (hab.trans hbd) (ih hrest)

omit [DecidableEq Key] in
theorem Follows.trans {t t' t'' : Tables Key T V} (h : Follows c rows t t')
    (h' : Follows c rest t' t'') :
    Follows c (rows ++ rest) t t'' :=
  ⟨forall₂_mayBecome h.target h'.target, h.failed.trans h'.failed⟩

theorem joinRows_mem {src : List (TempRow Key T)} {target : List (Key × Option V)}
    {news : List (Option Key × Option V)} (h : joinRows c src target = .ok news)
    {s : Option Key × Option V} (hs : s ∈ news) : ∃ r ∈ src, r.1 = s.1 ∧
      castColumn c r.2 = .ok s.2 := by
  unfold joinRows at h
  generalize hjoined : (src.filter fun r => target.any fun row => r.1 = some row.1) = joined at h
  have hsub : ∀ r ∈ joined, r ∈ src := fun r hr => List.mem_of_mem_filter (hjoined ▸ hr)
  clear hjoined
  induction joined generalizing news with
  | nil =>
    rw [mapM_nil_ok.mp h] at hs
    exact absurd hs List.not_mem_nil
  | cons r joined ih =>
    obtain ⟨y, ys, hy, hys, rfl⟩ := mapM_cons_ok.mp h
    rcases List.mem_cons.mp hs with rfl | hs
    · obtain ⟨v, hv, rfl⟩ := map_eq_ok.mp hy
      exact ⟨r, hsub r List.mem_cons_self, rfl, hv⟩
    · exact ih hs hys fun r hr => hsub r (List.mem_cons_of_mem _ hr)

theorem updateStatement_follows {args : UpdateArgs} {order : RowOrder (Option Key × Option V)}
    {t t' : Tables Key T V} (h : updateStatement args c order t rows = .ok t') :
    Follows c rows t t' := by
  unfold updateStatement at h
  split_ifs at h
  all_goals
    obtain ⟨news, hnews, hset⟩ := bind_eq_ok.mp h
    obtain ⟨inserted, -, rfl⟩ := map_eq_ok.mp hset
    refine ⟨?_, List.prefix_append _ _⟩
    refine List.forall₂_map_right_iff.mpr (List.forall₂_same.mpr fun row _ => ?_)
    unfold setRow
    split
    · next s hfind =>
      have hkey : s.1 = some row.1 := by simpa using List.find?_some hfind
      obtain ⟨r, hr, hfst, hcast⟩ :=
        joinRows_mem hnews ((order.perm news).mem_iff.mp (List.mem_of_find?_eq_some hfind))
      exact Or.inr ⟨rfl, r, (tempTableSubquery_sublist args c rows).subset hr,
        hfst.trans hkey, hcast⟩
    · exact Or.inl rfl

/-- What an export leaves behind, wherever it ends: a row of the target has its old value, or one
    that was cast from a row with its key in a COPY that could be read. -/
theorem exportCopies_follows {Copy : Type} (args : UpdateArgs) (c : Columns Key T V)
    (order : RowOrder (Option Key × Option V)) (read : Copy → Except String (List (TempRow Key T)))
    (copies : List Copy) (t : Tables Key T V) :
    ∃ rows, Follows c rows t (exportCopies args c order read copies t).1 ∧
      ∀ r ∈ rows, ∃ copy ∈ copies, ∃ group, read copy = .ok group ∧ r ∈ group := by
  induction copies generalizing t with
  | nil => exact ⟨[], Follows.refl t, fun r hr => absurd hr List.not_mem_nil⟩
  | cons copy copies ih =>
    unfold exportCopies
    split
    · next t' hstep =>
      obtain ⟨group, hread, hstatement⟩ := bind_eq_ok.mp hstep
      obtain ⟨rows, hfollows, hrows⟩ := ih t'
      refine ⟨group ++ rows, (updateStatement_follows hstatement).trans hfollows, fun r hr => ?_⟩
      rcases List.mem_append.mp hr with hr | hr
      · exact ⟨copy, List.mem_cons_self, group, hread, hr⟩
      · obtain ⟨other, hother, hin⟩ := hrows r hr
        exact ⟨other, List.mem_cons_of_mem _ hother, hin⟩
    · exact ⟨[], Follows.refl t, fun r hr => absurd hr List.not_mem_nil⟩

end Statement

end Lantern.ExportUpdate
