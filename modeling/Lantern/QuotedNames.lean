import Lantern.SqlLexer

set_option autoImplicit false

/-!
# Quoted names and literals

The command line puts names and values into statements between quotes. The lexer reads them
back, but not before every text: a literal goes on if the next line begins with a quote,
and of a name only the first 63 bytes count. The texts of two tables' full names are
different in any case.
-/
namespace Lantern.QuotedNames
open CharText SqlLexer

def quoteIdent (str : Text) : Text := quotation :: (double quotation str ++ [quotation])

def quoteLiteral (str : Text) : Text := apostrophe :: (double apostrophe str ++ [apostrophe])

def getFullTableName (schema table : Text) : Text := quoteIdent schema ++ '.' :: quoteIdent table

theorem quoteIdent_append (str follow : Text) :
    quoteIdent str ++ follow = quotation :: (double quotation str ++ quotation :: follow) := by
  rw [quoteIdent, List.cons_append, List.append_assoc, List.singleton_append]

theorem quoteLiteral_append (str follow : Text) :
    quoteLiteral str ++ follow = apostrophe :: (double apostrophe str ++ apostrophe :: follow) := by
  rw [quoteLiteral, List.cons_append, List.append_assoc, List.singleton_append]

section Read
variable {others : OtherTokens} {follow : Text}

theorem lexToken_quoteIdent {str : Text} (hstr : str ≠ [])
    (hquote : follow.head? ≠ some quotation) :
    lexToken others (quoteIdent str ++ follow) =
      some (some (.ident (truncateIdentifier str)), follow) := by
  rw [quoteIdent_append, lexToken_ident, readQuoted_double str hquote,
    Option.bind_some, if_neg hstr]

theorem lexToken_quoteIdent_eq_iff {str : Text} (hstr : str ≠ [])
    (hquote : follow.head? ≠ some quotation) :
    lexToken others (quoteIdent str ++ follow) = some (some (.ident str), follow) ↔
      utf8Length str < NAMEDATALEN := by
  rw [lexToken_quoteIdent hstr hquote, ← truncateIdentifier_eq_self_iff]
  simp

theorem lexToken_quoteLiteral_eq_iff (str : Text) (hquote : follow.head? ≠ some apostrophe) :
    lexToken others (quoteLiteral str ++ follow) = some (some (.string str), follow) ↔
      continued follow = none := by
  rw [quoteLiteral_append, lexToken_string]
  constructor
  · intro h
    obtain ⟨r, hr, heq⟩ := Option.map_eq_some_iff.mp h
    cases hmore : continued follow with
    | none => rfl
    | some more =>
      have hfollow : r.2 = follow := congrArg Prod.snd heq
      exact absurd (hfollow ▸ hr) (readString_continued str r.1 hquote hmore)
  · intro hend
    rw [readString_double str hquote hend, Option.map_some]

end Read

theorem getFullTableName_inj {schema table schema' table' : Text}
    (h : getFullTableName schema table = getFullTableName schema' table') : schema = schema' ∧
      table = table' := by
  have hdot : ∀ name : Text, ('.' :: quoteIdent name).head? ≠ some quotation := fun name hhead =>
    absurd (Option.some.inj hhead) (by decide)
  have hschema : ∀ schema table : Text,
      readQuoted quotation (getFullTableName schema table).tail =
      some (schema, '.' :: quoteIdent table) := by
    intro schema table
    rw [getFullTableName, quoteIdent_append, List.tail_cons, readQuoted_double schema (hdot table)]
  have htable : ∀ table : Text, readQuoted quotation (quoteIdent table).tail = some (table, []) :=
    fun table =>
    readQuoted_double table (by decide)
  have hpair : (schema, '.' :: quoteIdent table) = (schema', '.' :: quoteIdent table') := by
    rw [← Option.some_inj, ← hschema, ← hschema, h]
  obtain ⟨hname, hrest⟩ := Prod.mk.inj hpair
  have hquoted : quoteIdent table = quoteIdent table' := (List.cons.inj hrest).2
  have hread : some (table, ([] : Text)) = some (table', []) := by rw [← htable, ← htable, hquoted]
  exact ⟨hname, congrArg Prod.fst (Option.some.inj hread)⟩

/-- A quoted literal is read as one constant of its value if and only if no quote follows
    behind a line break, and a quoted name as that name if and only if it has less than 64
    bytes. Full names of tables are different for different tables. -/
theorem quoted_read (others : OtherTokens) :
    (∀ str follow, follow.head? ≠ some apostrophe →
      (lexToken others (quoteLiteral str ++ follow) = some (some (.string str), follow) ↔
        continued follow = none)) ∧
    (∀ str follow, str ≠ [] → follow.head? ≠ some quotation →
      (lexToken others (quoteIdent str ++ follow) = some (some (.ident str), follow) ↔
        utf8Length str < NAMEDATALEN)) ∧
    Function.Injective fun name : Text × Text => getFullTableName name.1 name.2 := by
  refine ⟨fun str follow hquote => lexToken_quoteLiteral_eq_iff str hquote,
    fun str follow hstr hquote => lexToken_quoteIdent_eq_iff hstr hquote, fun name name' h => ?_⟩
  obtain ⟨hschema, htable⟩ := getFullTableName_inj h
  exact Prod.ext hschema htable

theorem quoted_read_with_quotes :
    lexToken noOthers (quoteLiteral ['o', apostrophe] ++ [Char.ofNat 10, 'b']) =
        some (some (.string ['o', apostrophe]), [Char.ofNat 10, 'b']) ∧
      lexToken noOthers (quoteIdent ['o', quotation] ++ ['.']) =
        some (some (.ident ['o', quotation]), ['.']) :=
  ⟨((quoted_read noOthers).1 _ _ (by decide)).mpr (by decide),
    ((quoted_read noOthers).2.1 _ _ (by decide) (by decide)).mpr (by decide)⟩

/-- `'a'` before a line with `'b'` is read as the constant `ab`, and a name of 64 letters as
    one of 63. -/
theorem quoted_misread :
    lexToken noOthers (quoteLiteral ['a'] ++ [Char.ofNat 10, apostrophe, 'b', apostrophe]) =
        some (some (.string ['a', 'b']), []) ∧
      lexToken noOthers (quoteIdent (List.replicate 64 'a')) =
        some (some (.ident (List.replicate 63 'a')), []) := by
  decide +kernel

end Lantern.QuotedNames
