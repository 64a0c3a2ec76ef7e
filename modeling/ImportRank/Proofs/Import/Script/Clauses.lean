import ImportRank.Proofs.Import.Script.Braces

/-!
# Printed imports and exports

How the statements that name a file after `import` or `from` are read back.
-/

namespace ImportRank.Script

variable {rest : List Char} {found : List Mention} {cursor : Cursor}

/-- What follows the end of a line: nothing, or the start of a token. -/
def StartsLine (rest : List Char) : Prop := ∀ c ∈ rest.head?, StartsToken c

namespace Grammar

variable (g : Grammar)

lemma endStatement_eq (hrest : StartsLine rest) :
    endStatement (here (';' :: '\n' :: rest) found) = some (atLine rest found) :=
  congrArg some (move_lineEnd hrest)

lemma attributes_eq :
    g.attributes (here (';' :: rest) found) = some (here (';' :: rest) found) := by
  rw [attributes, word_of_sign rfl (by decide) (by decide), if_neg (by decide)]

/-- The text of a statement from the word `from` on, and what follows its line. -/
def fromRest (file : Literal) (rest : List Char) : List Char :=
  "from".toList ++ ' ' :: (file.text ++ ';' :: '\n' :: rest)

lemma atWord_fromRest {file : Literal} (hcursor : cursor.rest = fromRest file rest) :
    AtWord cursor "from".toList (' ' :: (file.text ++ ';' :: '\n' :: rest)) :=
  ⟨hcursor, by decide, endsWord_cons (by decide)⟩

/-- The file of a statement, and the end of its line. -/
lemma fromFile_eq {file : Literal} (mention : List Char → Mention) (hrest : StartsLine rest)
    (hcursor : cursor.rest = fromRest file rest) :
    (g.fromFile mention cursor).bind endStatement =
      some (atLine rest (mention file.text :: cursor.found)) := by
  have hkeyword : keyword "from" cursor =
      some (here (file.text ++ ';' :: '\n' :: rest) cursor.found) := by
    rw [(atWord_fromRest hcursor).keyword_eq rfl, move_of_leads (leads_blank (leads_literal file))]
  have hfile : AtLiteral (here (file.text ++ ';' :: '\n' :: rest) cursor.found) file
      (';' :: '\n' :: rest) := rfl
  rw [fromFile, hkeyword]
  simp only [Option.bind_eq_bind, Option.bind_some]
  rw [hfile.file_eq _ (leads_of_startsToken (by constructor <;> decide))]
  simp only [Option.bind_some]
  rw [attributes_eq]
  simp only [Option.bind_some]
  exact endStatement_eq hrest

/-! ## Import statements -/

lemma fromText_append (file : Literal) (rest : List Char) :
    Statement.fromText file ++ rest = ' ' :: fromRest file rest := by
  simp only [Statement.fromText, fromRest, List.cons_append, List.append_assoc, List.nil_append]

lemma leads_fromRest (file : Literal) (rest : List Char) :
    Leads (' ' :: fromRest file rest) (fromRest file rest) :=
  leads_blank (leads_word (by decide))

lemma importStatement_file {file : Literal} (hrest : StartsLine rest)
    (hkeyword : keyword "import" cursor =
      some (here (file.text ++ ';' :: '\n' :: rest) cursor.found)) :
    g.importStatement cursor = some (atLine rest (.imported file.text :: cursor.found)) := by
  have hfile : AtLiteral (here (file.text ++ ';' :: '\n' :: rest) cursor.found) file
      (';' :: '\n' :: rest) := rfl
  rw [importStatement, hkeyword]
  simp only [Option.bind_eq_bind, Option.bind_some]
  rw [hfile.hasString_eq, if_pos rfl,
    hfile.file_eq _ (leads_of_startsToken (by constructor <;> decide)), Option.bind_some,
    attributes_eq, Option.bind_some, endStatement_eq hrest]
  rfl

/-- Where neither the manner of an import nor another name for a name stands, an import statement is
a clause and a file. -/
lemma importStatement_clause {clause : Cursor} {file : Literal} (hrest : StartsLine rest)
    (hkeyword : keyword "import" cursor = some clause) (hstring : clause.hasString = false)
    (hname : ∀ after, name clause = some after →
      g.isImportManner clause after = false ∧ after.starts "=" = false)
    (hclause : importClause clause = some (here (fromRest file rest) found)) :
    g.importStatement cursor = some (atLine rest (.imported file.text :: found)) := by
  have hfrom : (g.fromFile .imported (here (fromRest file rest) found)).bind endStatement =
      some (atLine rest (.imported file.text :: found)) := fromFile_eq g _ hrest rfl
  rw [importStatement, hkeyword]
  simp only [Option.bind_eq_bind, Option.bind_some]
  rw [hstring, if_neg Bool.false_ne_true]
  cases hafter : name clause with
  | none =>
    dsimp only
    rw [hafter]
    simp only [Option.filter_none, hclause, Option.bind_some]
    exact hfrom
  | some after =>
    obtain ⟨hmanner, hequals⟩ := hname after hafter
    dsimp only
    rw [hmanner, if_neg Bool.false_ne_true, hafter]
    simp only [Option.filter_some, hequals, Bool.and_false, Bool.false_eq_true, if_false, hclause,
      Option.bind_some]
    exact hfrom

/-- Before `from` a word is what is imported, though it could be the manner elsewhere. -/
lemma isImportManner_from {file : Literal} (clause : Cursor) :
    g.isImportManner clause (here (fromRest file rest) found) = false := by
  have hfrom : AtWord (here (fromRest file rest) found) "from".toList
      (' ' :: (file.text ++ ';' :: '\n' :: rest)) := atWord_fromRest rfl
  have hfile : AtLiteral (here (file.text ++ ';' :: '\n' :: rest) found) file
      (';' :: '\n' :: rest) := rfl
  have hword : (here (fromRest file rest) found).word = "from" :=
    hfrom.word_eq.trans String.ofList_toList
  have hname : name (here (fromRest file rest) found) =
      some (here (file.text ++ ';' :: '\n' :: rest) found) := by
    rw [hfrom.name_eq, move_of_leads (leads_blank (leads_literal file))]
    rfl
  rw [isImportManner, hfrom.starts_eq rfl (by decide), hfrom.starts_eq rfl (by decide), hword,
    hname, Option.map_some, hfile.word_eq]
  simp

lemma importDefault_eq (name : Name) (file : Literal) (hrest : StartsLine rest)
    (hkeyword : keyword "import" cursor =
      some (here (name.text ++ ' ' :: fromRest file rest) cursor.found)) :
    g.importStatement cursor = some (atLine rest (.imported file.text :: cursor.found)) := by
  have hclause : AtWord (here (name.text ++ ' ' :: fromRest file rest) cursor.found) name.text
      (' ' :: fromRest file rest) := ⟨rfl, name.isWord, endsWord_cons (by decide)⟩
  have hname : Script.name (here (name.text ++ ' ' :: fromRest file rest) cursor.found) =
      some (here (fromRest file rest) cursor.found) := by
    rw [hclause.name_eq, move_of_leads (leads_fromRest file rest)]
    rfl
  have hfrom : AtWord (here (fromRest file rest) cursor.found) "from".toList
      (' ' :: (file.text ++ ';' :: '\n' :: rest)) := atWord_fromRest rfl
  refine importStatement_clause g hrest hkeyword hclause.hasString_eq ?_ ?_
  · intro after hafter
    rw [hname] at hafter
    obtain rfl := Option.some.inj hafter
    exact ⟨isImportManner_from g _, hfrom.starts_eq rfl (by decide)⟩
  · rw [importClause, hclause.hasWord, if_pos rfl, hname]
    simp only [Option.bind_eq_bind, Option.bind_some]
    rw [hfrom.starts_eq rfl (by decide), if_neg Bool.false_ne_true]
    rfl

lemma leads_star : Leads ('*' :: rest) ('*' :: rest) :=
  leads_of_startsToken (by constructor <;> decide)

lemma importAll_eq (name : Name) (file : Literal) (hrest : StartsLine rest)
    (hkeyword : keyword "import" cursor = some (here ('*' :: ' ' ::
      ("as".toList ++ ' ' :: (name.text ++ ' ' :: fromRest file rest))) cursor.found)) :
    g.importStatement cursor = some (atLine rest (.imported file.text :: cursor.found)) := by
  refine importStatement_clause g hrest hkeyword rfl ?_ ?_
  · intro after hafter
    rw [name_of_sign rfl (by decide) (by decide)] at hafter
    cases hafter
  · show everything _ = _
    have has : Text.IsWord isWordChar "as".toList := by decide
    rw [everything, symbol_here (show "*".toList = ['*'] from rfl) (leads_blank (leads_word has))]
    simp only [Option.bind_eq_bind, Option.bind_some]
    rw [keyword_here has (endsWord_cons (by decide)) (leads_blank (leads_word name.isWord))]
    exact name_here name.isWord (endsWord_cons (by decide)) (leads_fromRest file rest)

lemma exists_itemsText (items : List Item) (after : List Char) :
    ∃ more, itemsText items ++ after = '{' :: more := by
  cases items <;> exact ⟨_, rfl⟩

lemma importItems_eq (items : List Item) (file : Literal) (hrest : StartsLine rest)
    (hkeyword : keyword "import" cursor =
      some (here (itemsText items ++ ' ' :: fromRest file rest) cursor.found)) :
    g.importStatement cursor = some (atLine rest (.imported file.text :: cursor.found)) := by
  have hclause : nameList (here (itemsText items ++ ' ' :: fromRest file rest) cursor.found) =
      some (here (fromRest file rest) cursor.found) :=
    nameList_eq items (leads_fromRest file rest) rfl
  obtain ⟨more, hmore⟩ := exists_itemsText items (' ' :: fromRest file rest)
  rw [hmore] at hkeyword hclause
  refine importStatement_clause g hrest hkeyword rfl ?_ hclause
  intro after hafter
  rw [name_of_sign rfl (by decide) (by decide)] at hafter
  cases hafter

/-! ## Export statements -/

lemma exportAll_eq (file : Literal) (hrest : StartsLine rest)
    (hkeyword : keyword "export" cursor =
      some (here ('*' :: ' ' :: fromRest file rest) cursor.found)) :
    g.exportStatement cursor = some (atLine rest (.exported file.text :: cursor.found)) := by
  have hfrom : AtWord (here (fromRest file rest) cursor.found) "from".toList
      (' ' :: (file.text ++ ';' :: '\n' :: rest)) := atWord_fromRest rfl
  have hword : (here (fromRest file rest) cursor.found).word ≠ "as" := by
    rw [hfrom.word_eq, String.ofList_toList]
    decide
  have hname : name (here ('*' :: ' ' :: fromRest file rest) cursor.found) = none :=
    name_of_sign rfl (by decide) (by decide)
  have hstar : (here ('*' :: ' ' :: fromRest file rest) cursor.found).starts "*" = true := rfl
  rw [exportStatement, hkeyword]
  simp only [Option.bind_eq_bind, Option.bind_some, hname]
  rw [if_pos hstar, symbol_here (show "*".toList = ['*'] from rfl) (leads_fromRest file rest)]
  simp only [Option.bind_some, if_neg hword]
  exact fromFile_eq g _ hrest rfl

lemma exportItems_eq (items : List Item) (file : Literal) (hrest : StartsLine rest)
    (hkeyword : keyword "export" cursor =
      some (here (itemsText items ++ ' ' :: fromRest file rest) cursor.found)) :
    g.exportStatement cursor = some (atLine rest (.exported file.text :: cursor.found)) := by
  have hclause : nameList (here (itemsText items ++ ' ' :: fromRest file rest) cursor.found) =
      some (here (fromRest file rest) cursor.found) :=
    nameList_eq items (leads_fromRest file rest) rfl
  have hword : (here (fromRest file rest) cursor.found).word = "from" :=
    (atWord_fromRest rfl).word_eq.trans String.ofList_toList
  obtain ⟨more, hmore⟩ := exists_itemsText items (' ' :: fromRest file rest)
  rw [hmore] at hkeyword hclause
  have hname : name (here ('{' :: more) cursor.found) = none :=
    name_of_sign rfl (by decide) (by decide)
  have hstar : (here ('{' :: more) cursor.found).starts "*" = false := rfl
  have hbrace : (here ('{' :: more) cursor.found).starts openBrace = true := rfl
  rw [exportStatement, hkeyword]
  simp only [Option.bind_eq_bind, Option.bind_some, hname, hstar, hbrace,
    Bool.false_eq_true, if_false, if_true, hclause, hword]
  exact fromFile_eq g _ hrest rfl

end Grammar

end ImportRank.Script
