import Lantern.QuotedNames

set_option autoImplicit false

/-!
# Statements of the score of one document

`bm25_score` puts the document and the query between quotes as they are, although the name
of the table beside them is quoted. A quote in either of the texts ends the literal there.
What follows it is read as a part of the statement.
-/
namespace Lantern.Bm25Statements
open CharText SqlLexer QuotedNames

def tableBm25Fqn (tableFqn : Text) : Text := tableFqn ++ "_bm25".toList

def documentStatement (document : Text) : Text :=
  "SELECT text_to_stem_array(".toList ++ apostrophe :: (document ++ apostrophe :: ")".toList)

def corpusStatement (tableFqn : Text) : Text :=
  "SELECT term_freq AS corpus_size, (doc_ids_len / 100.0)::real AS avg_doc_len FROM ".toList ++
    (quoteIdent (tableBm25Fqn tableFqn) ++ " WHERE term IS NULL;".toList)

def queryClause (query : Text) : Text :=
  " WHERE term = ANY(text_to_stem_array(".toList ++
    apostrophe :: (query ++ apostrophe :: "));".toList)

def queryStatement (tableFqn query : Text) : Text :=
  "SELECT term, term_freq FROM ".toList ++ (quoteIdent (tableBm25Fqn tableFqn) ++ queryClause query)

def statements (tableFqn document query : Text) : List Text :=
  [documentStatement document, corpusStatement tableFqn, queryStatement tableFqn query]

def keyword (text : String) : Token := .word text.toList

def documentFront : List Token := [keyword "select", keyword "text_to_stem_array", .symbol '(']

def documentTokens (document : Text) : List Token :=
  documentFront ++ [.string document, .symbol ')']

def queryFront : List Token :=
  [keyword "select", keyword "term", .symbol ',', keyword "term_freq", keyword "from"]

def queryMiddle : List Token :=
  [keyword "where", keyword "term", .operator ['='], keyword "any", .symbol '(',
    keyword "text_to_stem_array", .symbol '(']

def queryTokens (tableFqn query : Text) : List Token :=
  queryFront ++ (.ident (truncateIdentifier (tableBm25Fqn tableFqn)) ::
    (queryMiddle ++ [.string query, .symbol ')', .symbol ')', .symbol ';']))

section Lexed
variable {others : OtherTokens}

theorem lex_documentFront (rest : Text) :
    lexSteps others 4 ("SELECT text_to_stem_array(".toList ++ apostrophe :: rest) =
      some (documentFront, apostrophe :: rest) := rfl

theorem lex_queryFront (rest : Text) :
    lexSteps others 9 ("SELECT term, term_freq FROM ".toList ++ quotation :: rest) =
      some (queryFront, quotation :: rest) := rfl

theorem lex_queryMiddle (rest : Text) :
    lexSteps others 11 (" WHERE term = ANY(text_to_stem_array(".toList ++ apostrophe :: rest) =
      some (queryMiddle, apostrophe :: rest) := rfl

theorem lex_tableName (tableFqn query : Text) :
    lexSteps others 1 (quoteIdent (tableBm25Fqn tableFqn) ++ queryClause query) =
      some ([.ident (truncateIdentifier (tableBm25Fqn tableFqn))], queryClause query) := by
  have hquote : (queryClause query).head? ≠ some quotation := fun hhead =>
    absurd (Option.some.inj hhead) (by decide)
  exact lexSteps_one (lexToken_quoteIdent (List.append_ne_nil_of_right_ne_nil _ (by decide)) hquote)

theorem lex_documentBack : lex others ")".toList = some [.symbol ')'] := rfl

theorem lex_queryBack : lex others "));".toList = some [.symbol ')', .symbol ')', .symbol ';'] :=
  rfl

theorem lex_documentStatement_iff (document : Text) :
    lex others (documentStatement document) = some (documentTokens document) ↔
      apostrophe ∉ document := by
  have hfront : lexSteps others 4 (documentStatement document) =
      some (documentFront, apostrophe :: (document ++ apostrophe :: ")".toList)) :=
      lex_documentFront _
  rw [documentTokens, lex_eq_iff_of_lexSteps hfront]
  exact lex_constant_iff lex_documentBack rfl (by decide) (by decide) document

theorem lex_queryStatement_iff (tableFqn query : Text) :
    lex others (queryStatement tableFqn query) = some (queryTokens tableFqn query) ↔
      apostrophe ∉ query := by
  have hfront : lexSteps others 9 (queryStatement tableFqn query) =
      some (queryFront, quoteIdent (tableBm25Fqn tableFqn) ++ queryClause query) := lex_queryFront _
  have hmiddle : lexSteps others 11 (queryClause query) =
      some (queryMiddle, apostrophe :: (query ++ apostrophe :: "));".toList)) := lex_queryMiddle _
  rw [queryTokens, lex_eq_iff_of_lexSteps hfront, ← List.singleton_append,
    lex_eq_iff_of_lexSteps (lex_tableName tableFqn query), lex_eq_iff_of_lexSteps hmiddle]
  exact lex_constant_iff lex_queryBack rfl (by decide) (by decide) query

end Lexed

/-- The statements are read as they are meant, with the text as the value of their only
    literal, exactly if there is no quote in the texts. The statement for the corpus has
    neither text in it. -/
theorem statements_read_iff (others : OtherTokens) (tableFqn document query : Text) :
    (statements tableFqn document query).map (lex others) =
        [some (documentTokens document), lex others (corpusStatement tableFqn),
          some (queryTokens tableFqn query)] ↔
      apostrophe ∉ document ∧ apostrophe ∉ query := by
  rw [← @lex_documentStatement_iff others document, ← @lex_queryStatement_iff others tableFqn query]
  simp only [statements, List.map_cons, List.map_nil, List.cons.injEq, true_and, and_true]

/-- `a'), f('b` -/
def calling : Text :=
  ['a', apostrophe, ')', ',', ' ', 'f', '(', apostrophe, 'b']

theorem calling_misread :
    lex noOthers (documentStatement calling) =
        some (documentFront ++ [.string ['a'], .symbol ')', .symbol ',', keyword "f", .symbol '(',
          .string ['b'], .symbol ')']) ∧
      lex noOthers (documentStatement ['i', 't', apostrophe, 's']) = none ∧
      lex noOthers (queryStatement ['t'] ['i', 't', apostrophe, 's']) = none := by
  decide +kernel

end Lantern.Bm25Statements
