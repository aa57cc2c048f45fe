import Lantern.CharText

set_option autoImplicit false

/-!
# Parameters of a connection URI

The command line adds a parameter to the URI of a database before it connects. Whether
the URI has parameters already is read off its last part between slashes, although the
parameters begin at the first question mark and may have slashes in their values.
-/
namespace Lantern.ConnectionUris
open CharText

def CONNECTION_PARAMS : Text := "connect_timeout=10".toList

def hasParams (dbUri : Text) : Bool :=
  match (dbUri.splitOn '/').getLast? with
  | some lastPart => decide ('?' ∈ lastPart)
  | none => false

def appendParamsToUri (dbUri params : Text) : Text :=
  if hasParams dbUri then dbUri ++ '&' :: params else dbUri ++ '?' :: params

def base (uri : Text) : Text := uri.takeWhile (· ≠ '?')

def parameters (uri : Text) : List Text :=
  match uri.dropWhile (· ≠ '?') with
  | [] => []
  | _ :: query => query.splitOn '&'

variable {uri : Text}

theorem base_parameters_plain (h : '?' ∉ uri) : base uri = uri ∧ parameters uri = [] := by
  have hplain : ∀ c ∈ uri, decide (c ≠ '?') = true :=
    fun c hc => decide_eq_true fun hc' => h (hc' ▸ hc)
  refine ⟨List.takeWhile_eq_self_iff.mpr hplain, ?_⟩
  rw [parameters, List.dropWhile_eq_nil_iff.mpr hplain]

theorem base_parameters_query {path : Text} (h : '?' ∉ path) (query : Text) :
    base (path ++ '?' :: query) = path ∧ parameters (path ++ '?' :: query) = query.splitOn '&' := by
  have hplain : ∀ c ∈ path, decide (c ≠ '?') = true :=
    fun c hc => decide_eq_true fun hc' => h (hc' ▸ hc)
  constructor
  · rw [base, List.takeWhile_append_of_pos hplain, List.takeWhile_cons_of_neg (by decide),
      List.append_nil]
  · rw [parameters, List.dropWhile_append_of_pos hplain, List.dropWhile_cons_of_neg (by decide)]

theorem getLast_splitOn {front last : Text} (h : '/' ∉ last) :
    ((front ++ '/' :: last).splitOn '/').getLast? = some last := by
  rw [List.splitOn_append_cons_self, List.splitOn_eq_singleton h, List.getLast?_concat]

theorem exists_lastPart (h : '/' ∈ uri) :
    ∃ front last, uri = front ++ '/' :: last ∧ '/' ∉ last := by
  obtain ⟨back, rest, heq, hback⟩ := List.eq_append_cons_of_mem (List.mem_reverse.mpr h)
  refine ⟨rest.reverse, back.reverse, ?_, fun hmem => hback (List.mem_reverse.mp hmem)⟩
  calc
    uri = uri.reverse.reverse := uri.reverse_reverse.symm
    _ = (back ++ '/' :: rest).reverse := by rw [heq]
    _ = rest.reverse ++ '/' :: back.reverse := by simp

theorem hasParams_iff (uri : Text) :
    hasParams uri = true ↔ ∃ path query, uri = path ++ '?' :: query ∧ '/' ∉ query := by
  by_cases hslash : '/' ∈ uri
  · obtain ⟨front, last, rfl, hlast⟩ := exists_lastPart hslash
    rw [hasParams, getLast_splitOn hlast, decide_eq_true_iff]
    constructor
    · intro h
      obtain ⟨path, query, rfl⟩ := List.append_of_mem h
      refine ⟨front ++ '/' :: path, query, by simp, fun hmem => hlast ?_⟩
      exact List.mem_append_right _ (List.mem_cons_of_mem _ hmem)
    · rintro ⟨path, query, heq, hquery⟩
      rcases List.append_eq_append_iff.mp heq with ⟨between, -, hrest⟩ | ⟨between, -, hrest⟩
      · cases between with
        | nil => exact absurd (List.cons.inj hrest).1 (by decide)
        | cons c between =>
          rw [(List.cons.inj hrest).2]
          exact List.mem_append_right _ List.mem_cons_self
      · have hmem : '/' ∈ '?' :: query := hrest ▸ List.mem_append_right _ List.mem_cons_self
        rcases List.mem_cons.mp hmem with h | h
        · exact absurd h (by decide)
        · exact absurd h hquery
  · have hparts : uri.splitOn '/' = [uri] := List.splitOn_eq_singleton hslash
    rw [hasParams, hparts, List.getLast?_singleton, decide_eq_true_iff]
    constructor
    · intro h
      obtain ⟨path, query, rfl⟩ := List.append_of_mem h
      exact ⟨path, query, rfl, fun hmem =>
        hslash (List.mem_append_right _ (List.mem_cons_of_mem _ hmem))⟩
    · rintro ⟨path, query, rfl, -⟩
      exact List.mem_append_right _ List.mem_cons_self

theorem length_splitOn (c : Char) (text : Text) : (text.splitOn c).length = text.count c + 1 := by
  induction text with
  | nil => rfl
  | cons d text ih =>
    rw [List.splitOn_cons_eq_if_modifyHead, List.count_cons]
    split_ifs with h
    · rw [List.length_cons, ih]
    · rw [List.length_modifyHead, ih, Nat.add_zero]

def Appended (uri params : Text) : Prop :=
  base (appendParamsToUri uri params) = base uri ∧
    parameters (appendParamsToUri uri params) = parameters uri ++ params.splitOn '&'

theorem appended_of_plain (h : '?' ∉ uri) (params : Text) : Appended uri params := by
  have hno : ¬ hasParams uri = true := by
    rw [hasParams_iff]
    rintro ⟨path, query, rfl, -⟩
    exact h (List.mem_append_right _ List.mem_cons_self)
  obtain ⟨hbase, hparameters⟩ := base_parameters_plain h
  obtain ⟨hbase', hparameters'⟩ := base_parameters_query h params
  rw [Appended, appendParamsToUri, if_neg hno, hbase, hparameters, hbase', hparameters',
    List.nil_append]
  exact ⟨rfl, rfl⟩

theorem appended_of_hasParams (h : hasParams uri = true) (params : Text) : Appended uri params := by
  obtain ⟨front, back, heq, -⟩ := (hasParams_iff uri).mp h
  have hmem : '?' ∈ uri := heq ▸ List.mem_append_right _ List.mem_cons_self
  obtain ⟨path, query, rfl, hpath⟩ := List.eq_append_cons_of_mem hmem
  obtain ⟨hbase, hparameters⟩ := base_parameters_query hpath query
  obtain ⟨hbase', hparameters'⟩ := base_parameters_query hpath (query ++ '&' :: params)
  rw [Appended, appendParamsToUri, if_pos h, List.append_assoc, List.cons_append, hbase,
    hparameters, hbase', hparameters', List.splitOn_append_cons_self]
  exact ⟨rfl, rfl⟩

theorem not_appended (hmem : '?' ∈ uri) (h : ¬ hasParams uri = true) (params : Text) :
    ¬ Appended uri params := by
  obtain ⟨path, query, rfl, hpath⟩ := List.eq_append_cons_of_mem hmem
  obtain ⟨-, hparameters⟩ := base_parameters_query hpath query
  obtain ⟨-, hparameters'⟩ := base_parameters_query hpath (query ++ '?' :: params)
  rintro ⟨-, happended⟩
  rw [appendParamsToUri, if_neg h, List.append_assoc, List.cons_append, hparameters,
    hparameters'] at happended
  have hlength := congrArg List.length happended
  rw [List.length_append, length_splitOn, length_splitOn, length_splitOn, List.count_append,
    List.count_cons_of_ne (by decide)] at hlength
  omega

/-- The parameters are added to the URI's own exactly if it has none, or a question mark
    with no slash after it. -/
theorem appended_iff (uri params : Text) :
    Appended uri params ↔ '?' ∉ uri ∨ ∃ path query, uri = path ++ '?' :: query ∧ '/' ∉ query := by
  rw [← hasParams_iff]
  constructor
  · intro h
    by_contra hneither
    obtain ⟨hmem, hno⟩ := not_or.mp hneither
    exact not_appended (not_not.mp hmem) hno params h
  · rintro (h | h)
    · exact appended_of_plain h params
    · exact appended_of_hasParams h params

def socketUri : Text := "postgres:///db?host=/tmp".toList

theorem socketUri_glued :
    ¬ Appended socketUri CONNECTION_PARAMS ∧
      parameters socketUri = ["host=/tmp".toList] ∧
      parameters (appendParamsToUri socketUri CONNECTION_PARAMS) =
        ["host=/tmp?connect_timeout=10".toList] := by
  unfold Appended
  decide

end Lantern.ConnectionUris
