import ImportRank.Proofs.Import.Script.Calls

/-!
# Printed statements of scripts, read back

A printed statement is recognized by the word that it starts with, up to the end of its line, and
its string is recorded. Main statement: `recognize_statement`.
-/

namespace ImportRank.Script

variable {word after text rest : List Char} {found : List Mention} {cursor next : Cursor}

namespace Grammar

variable (g : Grammar)

/-! ## Words that start statements -/

lemma statement_word (hcursor : AtWord cursor word rest) :
    g.statement cursor = g.wordedStatement cursor (cursor.move rest) := by
  rw [statement, hcursor.starts_eq rfl (by decide), hcursor.starts_eq rfl (by decide),
    hcursor.starts_eq rfl (by decide), hcursor.starts_eq rfl (by decide),
    hcursor.starts_eq rfl (by decide), hcursor.name_eq]
  rfl

lemma wordedStatement_import (hword : cursor.word = "import") (hcall : next.starts "(" = false)
    (hmember : next.starts "." = false) :
    g.wordedStatement cursor next = g.importStatement cursor := by
  have htyped : g.typedStatement cursor next = none := by
    simp [typedStatement, hword]
  have hcontrol : g.control "import" = none := rfl
  rw [wordedStatement, htyped]
  dsimp only
  rw [hword, hcontrol]
  dsimp only
  rw [hcall, hmember]
  rfl

lemma wordedStatement_export (hword : cursor.word = "export") :
    g.wordedStatement cursor next = g.exportStatement cursor := by
  have htyped : g.typedStatement cursor next = none := by
    simp [typedStatement, hword]
  have hcontrol : g.control "export" = some g.exportStatement := rfl
  rw [wordedStatement, htyped]
  dsimp only
  rw [hword, hcontrol]

/-- The word `const` declares variables, unless it is that of an enumeration. -/
lemma wordedStatement_const (hword : cursor.word = "const") (hname : name cursor = some next)
    (henum : next.word ≠ "enum") :
    g.wordedStatement cursor next = (g.declarators true cursor).bind endStatement := by
  have htyped : g.typedStatement cursor next = none := by
    simp [typedStatement, hword, henum]
  have hcontrol : g.control "const" = none := rfl
  have hvariables : startsVariables cursor = true := by
    simp [startsVariables, hname, hword, henum]
  rw [wordedStatement, htyped]
  dsimp only
  rw [hword, hcontrol]
  simp [hvariables]

lemma control_eq_none {word : String} (hword : word ∉ languageWords) : g.control word = none := by
  unfold control
  split
  case h_14 => rfl
  all_goals exact absurd (by decide) hword

/-- A name before parentheses starts an expression, whatever the name could start elsewhere. -/
lemma wordedStatement_call {argument : Literal} (hword : cursor.word ∉ languageWords)
    (hname : name cursor = some (here (callRest argument rest) found)) :
    g.wordedStatement cursor (here (callRest argument rest) found) =
      (g.sequence true cursor).bind endStatement := by
  have hne : ∀ special ∈ languageWords, cursor.word ≠ special := by
    rintro special hspecial rfl
    exact hword hspecial
  have hnext : (here (callRest argument rest) found).word = "" :=
    word_of_sign rfl (by decide) (by decide)
  have hnextWord : (here (callRest argument rest) found).hasWord = false := rfl
  have hnextString : (here (callRest argument rest) found).hasString = false := rfl
  have hbrace : (here (callRest argument rest) found).starts openBrace = false := rfl
  have hbracket : (here (callRest argument rest) found).starts "[" = false := rfl
  have hcolon : (here (callRest argument rest) found).starts ":" = false := rfl
  have htyped : g.typedStatement cursor (here (callRest argument rest) found) = none := by
    simp [typedStatement, hnext, hnextWord, hnextString, hbrace, hne "enum" (by decide)]
  have hvariables : startsVariables cursor = false := by
    simp [startsVariables, hname, hnext, hnextWord, hbrace, hbracket, hne "var" (by decide),
      hne "const" (by decide)]
  rw [wordedStatement, htyped]
  dsimp only
  rw [control_eq_none g hword]
  simp [hnext, hcolon, hvariables, hne "import" (by decide), hne "function" (by decide),
    hne "class" (by decide)]

/-! ## Expressions and variables -/

/-- An expression without commas. -/
lemma sequence_eq {inside : Bool}
    (hexpression : g.part (.expression inside) cursor = some (here (';' :: rest) found)) :
    g.sequence inside cursor = some (here (';' :: rest) found) := by
  rw [sequence, hexpression]
  exact many_of_eq_none rfl

/-- The text of a variable's value from the sign before it on, up to the semicolon after it. -/
def valueRest (file : Literal) (rest : List Char) : List Char :=
  '=' :: ' ' :: ("require".toList ++ callRest file rest)

lemma declarator_eq {name : Name} {file : Literal} {found' : List Mention}
    (hexpression : g.part (.expression true) (here ("require".toList ++ callRest file rest) found) =
      some (here (';' :: rest) found')) :
    g.declarator true "const" (here (name.text ++ ' ' :: valueRest file rest) found) =
      some (here (';' :: rest) found') := by
  have hcursor : AtWord (here (name.text ++ ' ' :: valueRest file rest) found) name.text
      (' ' :: valueRest file rest) := ⟨rfl, name.isWord, endsWord_cons (by decide)⟩
  have hname : Script.name (here (name.text ++ ' ' :: valueRest file rest) found) =
      some (here (valueRest file rest) found) :=
    name_here name.isWord (endsWord_cons (by decide))
      (leads_blank (leads_of_startsToken (by constructor <;> decide)))
  have hlet : ¬(g.dialect.typed && decide ("const" = "let") &&
      ["as", "satisfies"].contains (here (name.text ++ ' ' :: valueRest file rest) found).word) =
        true := by simp
  have hmark : Recognizer.optionally (symbol "!") (here (valueRest file rest) found) =
      some (here (valueRest file rest) found) := rfl
  have htype : annotation g (here (valueRest file rest) found) =
      some (here (valueRest file rest) found) := annotation_eq g rfl
  have hsingle : (here (valueRest file rest) found).starts "=" = true := rfl
  have hdouble : (here (valueRest file rest) found).starts "==" = false := rfl
  have hvalue : symbol "=" (here (valueRest file rest) found) =
      some (here ("require".toList ++ callRest file rest) found) :=
    symbol_here (show "=".toList = ['='] from rfl) (leads_blank (leads_word (by decide)))
  rw [declarator, hcursor.starts_eq rfl (by decide), hcursor.starts_eq rfl (by decide),
    contains_reservedWords (notMem_ownWords name hcursor)]
  simp only [Bool.false_eq_true, if_false, if_neg hlet, hname, Option.bind_eq_bind,
    Option.bind_some, hmark, ite_self, htype, hsingle, hdouble, Bool.not_false, Bool.and_self,
    if_true, hvalue]
  exact hexpression

/-- The variable of a declaration, when its value is read. -/
lemma declarators_eq {name : Name} {file : Literal} {found' : List Mention}
    (hword : cursor.word = "const")
    (hname : Script.name cursor = some (here (name.text ++ ' ' :: valueRest file rest) found))
    (hexpression : g.part (.expression true) (here ("require".toList ++ callRest file rest) found) =
      some (here (';' :: rest) found')) :
    g.declarators true cursor = some (here (';' :: rest) found') := by
  rw [declarators, hword, hname]
  simp only [Option.bind_eq_bind, Option.bind_some, declarator_eq g hexpression]
  exact many_of_eq_none rfl

lemma callText_append (argument : Literal) (rest : List Char) :
    Statement.callText argument ++ rest = callRest argument ('\n' :: rest) := by
  simp only [Statement.callText, callRest, List.cons_append, List.append_assoc, List.nil_append]

/-! ## Statements that name a file after `import` or `from` -/

/-- A statement that starts with `import` and goes on with no call and no member is an import
statement. -/
lemma statement_import (hleads : Leads text text) (hcall : (here text found).starts "(" = false)
    (hmember : (here text found).starts "." = false) :
    g.statement (atLine ("import".toList ++ ' ' :: text) found) =
        g.importStatement (atLine ("import".toList ++ ' ' :: text) found) ∧
      keyword "import" (atLine ("import".toList ++ ' ' :: text) found) =
        some (here text found) := by
  have hcursor : AtWord (atLine ("import".toList ++ ' ' :: text) found) "import".toList
      (' ' :: text) := ⟨rfl, by decide, endsWord_cons (by decide)⟩
  have hmove : (atLine ("import".toList ++ ' ' :: text) found).move (' ' :: text) =
      here text found := move_of_leads (leads_blank hleads)
  constructor
  · rw [statement_word g hcursor, hmove]
    exact wordedStatement_import g (hcursor.word_eq.trans String.ofList_toList) hcall hmember
  · rw [hcursor.keyword_eq rfl, hmove]

lemma statement_export (hleads : Leads text text) :
    g.statement (atLine ("export".toList ++ ' ' :: text) found) =
        g.exportStatement (atLine ("export".toList ++ ' ' :: text) found) ∧
      keyword "export" (atLine ("export".toList ++ ' ' :: text) found) =
        some (here text found) := by
  have hcursor : AtWord (atLine ("export".toList ++ ' ' :: text) found) "export".toList
      (' ' :: text) := ⟨rfl, by decide, endsWord_cons (by decide)⟩
  constructor
  · rw [statement_word g hcursor]
    exact wordedStatement_export g (hcursor.word_eq.trans String.ofList_toList)
  · rw [hcursor.keyword_eq rfl, move_of_leads (leads_blank hleads)]
    rfl

variable {g} (hrest : StartsLine rest)

include hrest

lemma statement_importFile (file : Literal) :
    g.statement (atLine ((Statement.importFile file).text ++ rest) found) =
      some (atLine rest (.imported file.text :: found)) := by
  have htext : (Statement.importFile file).text ++ rest =
      "import".toList ++ ' ' :: (file.text ++ ';' :: '\n' :: rest) := by
    show ("import".toList ++ ' ' :: file.text ++ [';', '\n']) ++ rest = _
    simp only [List.append_assoc, List.cons_append, List.nil_append]
  have hfile : AtLiteral (here (file.text ++ ';' :: '\n' :: rest) found) file
      (';' :: '\n' :: rest) := rfl
  obtain ⟨hstatement, hkeyword⟩ := statement_import g (leads_literal file)
    (hfile.starts_eq rfl (by decide)) (hfile.starts_eq rfl (by decide))
  rw [htext, hstatement]
  exact importStatement_file g hrest hkeyword

lemma statement_importDefault (name : Name) (file : Literal) :
    g.statement (atLine ((Statement.importDefault name file).text ++ rest) found) =
      some (atLine rest (.imported file.text :: found)) := by
  have htext : (Statement.importDefault name file).text ++ rest =
      "import".toList ++ ' ' :: (name.text ++ ' ' :: fromRest file rest) := by
    show ("import".toList ++ ' ' :: name.text ++ Statement.fromText file) ++ rest = _
    rw [List.append_assoc, List.append_assoc, fromText_append, List.cons_append]
  have hname : AtWord (here (name.text ++ ' ' :: fromRest file rest) found) name.text
      (' ' :: fromRest file rest) := ⟨rfl, name.isWord, endsWord_cons (by decide)⟩
  obtain ⟨hstatement, hkeyword⟩ := statement_import g (leads_word name.isWord)
    (hname.starts_eq rfl (by decide)) (hname.starts_eq rfl (by decide))
  rw [htext, hstatement]
  exact importDefault_eq g name file hrest hkeyword

lemma statement_importAll (name : Name) (file : Literal) :
    g.statement (atLine ((Statement.importAll name file).text ++ rest) found) =
      some (atLine rest (.imported file.text :: found)) := by
  have htext : (Statement.importAll name file).text ++ rest = "import".toList ++
      ' ' :: '*' :: ' ' :: ("as".toList ++ ' ' :: (name.text ++ ' ' :: fromRest file rest)) := by
    show ("import".toList ++ ' ' :: '*' :: ' ' :: "as".toList ++ ' ' :: name.text ++
      Statement.fromText file) ++ rest = _
    rw [List.append_assoc, List.append_assoc, List.append_assoc, fromText_append]
    simp only [List.cons_append]
  obtain ⟨hstatement, hkeyword⟩ := statement_import g leads_star rfl rfl
  rw [htext, hstatement]
  exact importAll_eq g name file hrest hkeyword

lemma statement_importItems (items : List Item) (file : Literal) :
    g.statement (atLine ((Statement.importItems items file).text ++ rest) found) =
      some (atLine rest (.imported file.text :: found)) := by
  have htext : (Statement.importItems items file).text ++ rest =
      "import".toList ++ ' ' :: (itemsText items ++ ' ' :: fromRest file rest) := by
    show ("import".toList ++ ' ' :: itemsText items ++ Statement.fromText file) ++ rest = _
    rw [List.append_assoc, List.append_assoc, fromText_append, List.cons_append]
  have hstarts : (here (itemsText items ++ ' ' :: fromRest file rest) found).starts "(" = false ∧
      (here (itemsText items ++ ' ' :: fromRest file rest) found).starts "." = false := by
    cases items <;> exact ⟨rfl, rfl⟩
  obtain ⟨hstatement, hkeyword⟩ := statement_import g (leads_itemsText items _) hstarts.1 hstarts.2
  rw [htext, hstatement]
  exact importItems_eq g items file hrest hkeyword

lemma statement_exportAll (file : Literal) :
    g.statement (atLine ((Statement.exportAll file).text ++ rest) found) =
      some (atLine rest (.exported file.text :: found)) := by
  have htext : (Statement.exportAll file).text ++ rest =
      "export".toList ++ ' ' :: '*' :: ' ' :: fromRest file rest := by
    show ("export".toList ++ ' ' :: '*' :: Statement.fromText file) ++ rest = _
    rw [List.append_assoc, List.cons_append, List.cons_append, fromText_append]
  obtain ⟨hstatement, hkeyword⟩ := statement_export g leads_star
  rw [htext, hstatement]
  exact exportAll_eq g file hrest hkeyword

lemma statement_exportItems (items : List Item) (file : Literal) :
    g.statement (atLine ((Statement.exportItems items file).text ++ rest) found) =
      some (atLine rest (.exported file.text :: found)) := by
  have htext : (Statement.exportItems items file).text ++ rest =
      "export".toList ++ ' ' :: (itemsText items ++ ' ' :: fromRest file rest) := by
    show ("export".toList ++ ' ' :: itemsText items ++ Statement.fromText file) ++ rest = _
    rw [List.append_assoc, List.append_assoc, fromText_append, List.cons_append]
  obtain ⟨hstatement, hkeyword⟩ := statement_export g (leads_itemsText items _)
  rw [htext, hstatement]
  exact exportItems_eq g items file hrest hkeyword

/-! ## Statements that call -/

/-- A variable whose value is required, as long as the call is recognized. -/
lemma statement_require (name : Name) (file : Literal)
    (hexpression : g.part (.expression true)
        (here ("require".toList ++ callRest file ('\n' :: rest)) found) =
      some (here (';' :: '\n' :: rest) (.passed "require".toList file.text :: found))) :
    g.statement (atLine ((Statement.require name file).text ++ rest) found) =
      some (atLine rest (.passed "require".toList file.text :: found)) := by
  have htext : (Statement.require name file).text ++ rest =
      "const".toList ++ ' ' :: (name.text ++ ' ' :: valueRest file ('\n' :: rest)) := by
    show ("const".toList ++ ' ' :: name.text ++ ' ' :: '=' :: ' ' :: "require".toList ++
      Statement.callText file) ++ rest = _
    rw [List.append_assoc, List.append_assoc, List.append_assoc, callText_append]
    simp only [List.cons_append, valueRest]
  have hcursor : AtWord (atLine ("const".toList ++ ' ' ::
      (name.text ++ ' ' :: valueRest file ('\n' :: rest))) found) "const".toList
      (' ' :: (name.text ++ ' ' :: valueRest file ('\n' :: rest))) :=
    ⟨rfl, by decide, endsWord_cons (by decide)⟩
  have hnext : AtWord (here (name.text ++ ' ' :: valueRest file ('\n' :: rest)) found) name.text
      (' ' :: valueRest file ('\n' :: rest)) := ⟨rfl, name.isWord, endsWord_cons (by decide)⟩
  have hword := hcursor.word_eq.trans String.ofList_toList
  have hname := hcursor.name_eq
  rw [move_of_leads (leads_blank (leads_word name.isWord))] at hname
  have henum : (here (name.text ++ ' ' :: valueRest file ('\n' :: rest)) found).word ≠ "enum" := by
    rw [hnext.word_eq]
    intro hreserved
    exact name.notReserved (by rw [hreserved]; decide)
  rw [htext, statement_word g hcursor, move_of_leads (leads_blank (leads_word name.isWord)),
    wordedStatement_const g hword hname henum, declarators_eq g hword hname hexpression]
  exact endStatement_eq hrest

lemma statement_call (callee : Name) (other : callee.text ≠ "require".toList) (argument : Literal)
    (hexpression : g.part (.expression true)
        (atLine (callee.text ++ callRest argument ('\n' :: rest)) found) =
      some (here (';' :: '\n' :: rest) (.passed callee.text argument.text :: found))) :
    g.statement (atLine ((Statement.call callee other argument).text ++ rest) found) =
      some (atLine rest (.passed callee.text argument.text :: found)) := by
  have htext : (Statement.call callee other argument).text ++ rest =
      callee.text ++ callRest argument ('\n' :: rest) := by
    show (callee.text ++ Statement.callText argument) ++ rest = _
    rw [List.append_assoc, callText_append]
  have hcursor : AtWord (atLine (callee.text ++ callRest argument ('\n' :: rest)) found)
      callee.text (callRest argument ('\n' :: rest)) :=
    ⟨rfl, callee.isWord, endsWord_cons (by decide)⟩
  have hname := hcursor.name_eq
  rw [move_of_leads (leads_callRest argument _)] at hname
  have hword : (atLine (callee.text ++ callRest argument ('\n' :: rest)) found).word ∉
      languageWords := by
    rw [hcursor.word_eq]
    exact callee.notReserved
  rw [htext, statement_word g hcursor, move_of_leads (leads_callRest argument _),
    wordedStatement_call g hword hname, sequence_eq g hexpression]
  exact endStatement_eq hrest

end Grammar

open Grammar

/-! ## Depths -/

variable {dialect : Dialect} (depth : ℕ)

lemma recognize_literal {inside : Bool} (literal : Literal) :
    recognize dialect (depth + 2) (.expression inside) (here (literal.text ++ ')' :: rest) found) =
      some (here (')' :: rest) found) :=
  expression_of_operand ⟨dialect, recognize dialect (depth + 1)⟩ (by decide)
    (operand_literal ⟨dialect, recognize dialect depth⟩ literal)

lemma recognize_group (literal : Literal) :
    recognize dialect (depth + 3) .group (here (callRest literal rest) found) =
      some (here (';' :: rest) found) :=
  group_literal ⟨dialect, recognize dialect (depth + 2)⟩ (recognize_literal depth literal)

/-- An expression of a name and the argument that it is called with. -/
lemma recognize_call {inside : Bool} (hcursor : AtWord cursor word rest)
    (hworded : worded ⟨dialect, recognize dialect (depth + 3)⟩ cursor =
      some (here (';' :: after) found)) :
    recognize dialect (depth + 5) (.expression inside) cursor =
      some (here (';' :: after) found) := by
  refine expression_of_operand ⟨dialect, recognize dialect (depth + 4)⟩ (by decide) ?_
  exact (operand_word ⟨dialect, recognize dialect (depth + 3)⟩ hcursor).trans hworded

/-! ## All statements -/

/-- A statement is recognized up to the end of its line. -/
theorem recognize_statement (statement : Statement) (hrest : StartsLine rest) :
    recognize dialect (depth + 6) .statement (atLine (statement.text ++ rest) found) =
      some (atLine rest (statement.mention :: found)) := by
  show Grammar.statement ⟨dialect, recognize dialect (depth + 5)⟩ _ = _
  cases statement with
  | importFile file => exact statement_importFile hrest file
  | importDefault name file => exact statement_importDefault hrest name file
  | importAll name file => exact statement_importAll hrest name file
  | importItems items file => exact statement_importItems hrest items file
  | exportAll file => exact statement_exportAll hrest file
  | exportItems items file => exact statement_exportItems hrest items file
  | require name file =>
    refine statement_require hrest name file ?_
    have hcursor : AtWord (here ("require".toList ++ callRest file ('\n' :: rest)) found)
        "require".toList (callRest file ('\n' :: rest)) :=
      ⟨rfl, by decide, endsWord_cons (by decide)⟩
    have hown : (here ("require".toList ++ callRest file ('\n' :: rest)) found).word ∉
        ownWords := by
      rw [hcursor.word_eq, String.ofList_toList]
      decide
    exact recognize_call depth hcursor (worded_call _ hcursor (recognize_group depth file) hown)
  | call callee other argument =>
    refine statement_call hrest callee other argument ?_
    have hcursor : AtWord (atLine (callee.text ++ callRest argument ('\n' :: rest)) found)
        callee.text (callRest argument ('\n' :: rest)) :=
      ⟨rfl, callee.isWord, endsWord_cons (by decide)⟩
    exact recognize_call depth hcursor
      (worded_call _ hcursor (recognize_group depth argument) (notMem_ownWords callee hcursor))

end ImportRank.Script
