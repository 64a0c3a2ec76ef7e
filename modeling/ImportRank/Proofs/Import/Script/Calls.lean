import ImportRank.Import.Script.Recognition
import ImportRank.Proofs.Import.Script.Clauses

/-!
# Printed calls

A call with a string for its argument is read up to the semicolon after it, and the string is
recorded with the name that is called.
-/

namespace ImportRank.Script.Grammar

variable {word rest : List Char} {found : List Mention} {cursor : Cursor} {c : Char}

/-- The text of a call from its argument on, up to the semicolon after it. -/
def callRest (argument : Literal) (rest : List Char) : List Char :=
  '(' :: (argument.text ++ ')' :: ';' :: rest)

variable (g : Grammar)

/-! ## Ends of operands -/

lemma loop_of_next {step : Cursor → Option (Option Cursor)} {next : Cursor}
    (hcursor : cursor.rest = c :: rest) (hstep : step cursor = some (some next))
    (hnext : step next = some none) : loop step cursor = some next := by
  rw [loop, hcursor, Recognizer.steps, hstep]
  cases rest with
  | nil => rfl
  | cons d rest =>
    dsimp only
    rw [Recognizer.steps, hnext]

lemma endings_of_stop (hc : c ∈ [')', ';']) :
    g.endings (here (c :: rest) found) = some (here (c :: rest) found) := by
  simp only [List.mem_cons, List.not_mem_nil, or_false] at hc
  obtain rfl | rfl := hc <;> exact loop_of_done rfl

lemma word_of_stop (hc : c ∈ [')', ';']) : (here (c :: rest) found).word = "" := by
  simp only [List.mem_cons, List.not_mem_nil, or_false] at hc
  obtain rfl | rfl := hc <;> exact word_of_sign rfl (by decide) (by decide)

lemma continuation_of_stop (hc : c ∈ [')', ';']) (inside : Bool) :
    g.continuation inside (here (c :: rest) found) = some none := by
  have hword : (here (c :: rest) found).word = "" := word_of_stop hc
  have hoperator : binaryOperator inside (here (c :: rest) found) = none := by
    simp only [binaryOperator, hword]
    simp only [List.mem_cons, List.not_mem_nil, or_false] at hc
    obtain rfl | rfl := hc <;> rfl
  have hquestion : (here (c :: rest) found).starts "?" = false := by
    simp only [List.mem_cons, List.not_mem_nil, or_false] at hc
    obtain rfl | rfl := hc <;> rfl
  rw [continuation, hoperator]
  dsimp only
  rw [hquestion, if_neg Bool.false_ne_true, hword, if_neg (by simp)]
  rfl

/-- An expression of one operand. -/
lemma expression_of_operand {inside : Bool} (hc : c ∈ [')', ';'])
    (hoperand : g.part .operand cursor = some (here (c :: rest) found)) :
    g.expression inside cursor = some (here (c :: rest) found) := by
  rw [expression, hoperand]
  exact loop_of_done (continuation_of_stop g hc inside)

/-! ## The argument -/

lemma operand_literal (literal : Literal) :
    g.operand (here (literal.text ++ ')' :: rest) found) = some (here (')' :: rest) found) := by
  have hliteral : AtLiteral (here (literal.text ++ ')' :: rest) found) literal (')' :: rest) := rfl
  have hstring : string (here (literal.text ++ ')' :: rest) found) =
      some (here (')' :: rest) found) := by
    rw [hliteral.string_eq, move_of_leads (leads_of_startsToken (by constructor <;> decide))]
    rfl
  have hoperand : g.operand (here (literal.text ++ ')' :: rest) found) =
      (string (here (literal.text ++ ')' :: rest) found)).bind g.endings := by
    obtain ⟨quote, body, hplain⟩ := literal
    cases quote <;> rfl
  rw [hoperand, hstring]
  exact endings_of_stop g (by decide)

lemma parameterStart_literal (literal : Literal) :
    g.parameterStart (here (literal.text ++ rest) found) =
      some (here (literal.text ++ rest) found) := by
  have hliteral : AtLiteral (here (literal.text ++ rest) found) literal rest := rfl
  have hdecorators : g.decorators (here (literal.text ++ rest) found) =
      some (here (literal.text ++ rest) found) := by
    exact loop_of_done (by rw [hliteral.starts_eq rfl (by decide), if_neg Bool.false_ne_true])
  rw [parameterStart, hdecorators]
  refine many_of_eq_none ?_
  rw [hliteral.word_eq, if_neg (by simp)]

lemma annotation_eq (hcolon : cursor.starts ":" = false) :
    annotation g cursor = some cursor := by
  unfold annotation
  rw [hcolon, Bool.and_false, if_neg Bool.false_ne_true]
  rfl

/-- The one element in parentheses. -/
lemma groupElement_literal {literal : Literal}
    (hexpression : g.part (.expression true) (here (literal.text ++ ')' :: rest) found) =
      some (here (')' :: rest) found)) :
    g.groupElement (here (literal.text ++ ')' :: rest) found) =
      some (here (')' :: rest) found) := by
  have hspread : Recognizer.optionally (symbol "...") (here (literal.text ++ ')' :: rest) found) =
      some (here (literal.text ++ ')' :: rest) found) := by
    have hliteral : AtLiteral (here (literal.text ++ ')' :: rest) found) literal
        (')' :: rest) := rfl
    rw [Recognizer.optionally, symbol, hliteral.starts_eq rfl (by decide)]
    rfl
  rw [groupElement, parameterStart_literal]
  simp only [Option.bind_eq_bind, Option.bind_some, hspread, hexpression]
  -- Neither a question mark nor a type or a value follows in the parentheses.
  have hquestion : Recognizer.optionally (symbol "?") (here (')' :: rest) found) =
      some (here (')' :: rest) found) := rfl
  have htype : annotation g (here (')' :: rest) found) = some (here (')' :: rest) found) :=
    annotation_eq g rfl
  have hvalue : (here (')' :: rest) found).starts "=" = false := rfl
  simp only [hquestion, Option.bind_some, htype, hvalue, Bool.false_eq_true, if_false]
  split <;> rfl

/-- A string in parentheses. -/
lemma group_literal {literal : Literal}
    (hexpression : g.part (.expression true) (here (literal.text ++ ')' :: ';' :: rest) found) =
      some (here (')' :: ';' :: rest) found)) :
    g.group (here (callRest literal rest) found) = some (here (';' :: rest) found) := by
  have hopen : symbol "(" (here (callRest literal rest) found) =
      some (here (literal.text ++ ')' :: ';' :: rest) found) :=
    symbol_here (show "(".toList = ['('] from rfl) (leads_literal literal)
  have hclose : symbol ")" (here (')' :: ';' :: rest) found) = some (here (';' :: rest) found) :=
    symbol_here (show ")".toList = [')'] from rfl)
      (leads_of_startsToken (by constructor <;> decide))
  have hliteral : AtLiteral (here (literal.text ++ ')' :: ';' :: rest) found) literal
      (')' :: ';' :: rest) := rfl
  have hstep : listStep ")" g.groupElement (here (literal.text ++ ')' :: ';' :: rest) found) =
      some (some (here (')' :: ';' :: rest) found)) :=
    listStep_element (hliteral.starts_eq rfl (by decide)) (hliteral.starts_eq rfl (by decide))
      (groupElement_literal g hexpression)
  have hloop := loop_of_next hliteral.eq_cons hstep rfl
  rw [group, hopen]
  simp only [Option.bind_eq_bind, Option.bind_some]
  rw [listUntil_eq, hloop]
  exact hclose

/-! ## Called names -/

/-- What a part of the grammar does with the argument of a call and the semicolon after it. -/
lemma endings_call {argument : Literal}
    (hgroup : g.part .group (here (callRest argument rest) found) =
      some (here (';' :: rest) found)) :
    g.endings (here (callRest argument rest) found) = some (here (';' :: rest) found) := by
  refine loop_of_next rfl ?_ rfl
  show (g.part .group _).bind _ = _
  rw [hgroup]
  rfl

lemma afterGroup_of_stop :
    g.afterGroup (here (';' :: rest) found) = some (here (';' :: rest) found) := by
  have hcolon : (here (';' :: rest) found).starts ":" = false := rfl
  have harrow : (here (';' :: rest) found).starts "=>" = false := rfl
  rw [afterGroup]
  dsimp only
  rw [harrow, hcolon, Bool.and_false]
  exact endings_of_stop g (by decide)

/-- A word that starts an operand does so with a letter or the like. -/
lemma operand_word (hcursor : AtWord cursor word rest) : g.operand cursor = g.worded cursor := by
  obtain ⟨c, after, hrest, hc, hdigit⟩ := hcursor.exists_cons
  have hne : ∀ d, isWordChar d = false → c ≠ d := by
    rintro d hd rfl
    rw [hd] at hc
    cases hc
  unfold operand
  rw [hrest]
  split
  case h_16 heq =>
    obtain ⟨rfl, rfl⟩ := List.cons.inj heq
    have hquote : ¬(c = '\'' ∨ c = '"') :=
      fun h => h.elim (hne '\'' (by decide)) (hne '"' (by decide))
    rw [if_neg hquote, hdigit, if_neg Bool.false_ne_true]
  case h_17 => contradiction
  -- The other operands start with a sign.
  all_goals
    rename_i heq
    exact absurd (List.cons.inj heq).1 (hne _ (by decide))

lemma leads_callRest (argument : Literal) (rest : List Char) :
    Leads (callRest argument rest) (callRest argument rest) :=
  leads_of_startsToken (by constructor <;> decide)

/-- The words that say themselves what operand they start, or that they start none. -/
def ownWords : List String :=
  prefixWords ++ reservedWords ++ ["await", "yield", "new", "function", "class", "import"]

lemma notMem_ownWords (name : Name) (hcursor : AtWord cursor name.text rest) :
    cursor.word ∉ ownWords := by
  have hwords : ∀ word ∈ ownWords, word ∈ languageWords := by decide
  rw [hcursor.word_eq]
  exact fun hown => name.notReserved (hwords _ hown)

/-- An operand that starts with another word starts with a name, but for one more case. -/
lemma worded_eq (hown : cursor.word ∉ ownWords) :
    g.worded cursor =
      if cursor.word = "async" then g.asyncExpression cursor else g.named cursor := by
  simp only [ownWords, List.mem_append, List.mem_cons, List.not_mem_nil, or_false, not_or] at hown
  obtain ⟨⟨hoperator, -⟩, hawait, hyield, hnew, hfunction, hclass, -⟩ := hown
  have hcontains : prefixWords.contains cursor.word = false :=
    Bool.eq_false_iff.mpr fun h => hoperator (List.contains_iff_mem.mp h)
  simp only [worded, hcontains, Bool.false_eq_true, hawait, hyield, hnew, hfunction, hclass,
    if_false]

lemma contains_reservedWords (hown : cursor.word ∉ ownWords) :
    reservedWords.contains cursor.word = false := by
  simp only [ownWords, List.mem_append, not_or] at hown
  exact Bool.eq_false_iff.mpr fun h => hown.1.2 (List.contains_iff_mem.mp h)

/-! ## Strings in calls -/

/-- The argument of a call of a name is recorded with the name. -/
lemma noteArgument_eq (name : String) (argument : Literal) :
    g.noteArgument name (here (callRest argument rest) found) =
      here (callRest argument rest) (.passed name.toList argument.text :: found) := by
  have hoptional : Recognizer.optionally (symbol "?.") (here (callRest argument rest) found) =
      some (here (callRest argument rest) found) := rfl
  have htypes : Recognizer.optionally g.typeList (here (callRest argument rest) found) =
      some (here (callRest argument rest) found) := rfl
  have hopen : symbol "(" (here (callRest argument rest) found) =
      some (here (argument.text ++ ')' :: ';' :: rest) found) :=
    symbol_here (show "(".toList = ['('] from rfl) (leads_literal argument)
  have hargument : AtLiteral (here (argument.text ++ ')' :: ';' :: rest) found) argument
      (')' :: ';' :: rest) := rfl
  have hcomment : (here (argument.text ++ ')' :: ';' :: rest) found).afterComment = false := rfl
  have hclose : (here (')' :: ';' :: rest) found).starts ")" = true := rfl
  rw [noteArgument]
  simp only [Option.bind_eq_bind, hoptional, Option.bind_some, htypes, hopen, ite_self, hcomment,
    Bool.false_eq_true, if_false]
  rw [hargument.string?_eq, move_of_leads (leads_of_startsToken (by constructor <;> decide))]
  show (if (_ || (here (')' :: ';' :: rest) found).starts ")") = true then _ else _) = _
  rw [hclose, Bool.or_true, if_pos rfl]
  rfl

section Called

variable {argument : Literal} (hcursor : AtWord cursor word (callRest argument rest))
  (hgroup : g.part .group
      (here (callRest argument rest) (.passed word argument.text :: cursor.found)) =
    some (here (';' :: rest) (.passed word argument.text :: cursor.found)))

include hcursor hgroup

/-- A name before the argument of a call is called. -/
lemma named_call (hown : cursor.word ∉ ownWords) :
    g.named cursor = some (here (';' :: rest) (.passed word argument.text :: cursor.found)) := by
  have himport : cursor.word ≠ "import" := fun h => hown (by rw [h]; decide)
  have harrow : (here (callRest argument rest) cursor.found).starts "=>" = false := rfl
  rw [named, contains_reservedWords hown, if_neg Bool.false_ne_true, hcursor.name_eq,
    move_of_leads (leads_callRest argument rest)]
  simp only [Option.bind_eq_bind, Option.bind_some, harrow, Bool.false_and, Bool.false_eq_true,
    if_false, himport]
  rw [noteArgument_eq, hcursor.word_eq, String.toList_ofList, endings_call g hgroup]

/-- The name `async` before parentheses is called like others. -/
lemma asyncExpression_call (hasync : cursor.word = "async") :
    g.asyncExpression cursor =
      some (here (';' :: rest) (.passed word argument.text :: cursor.found)) := by
  have hkeyword : keyword "async" cursor = some (here (callRest argument rest) cursor.found) := by
    rw [keyword, if_pos hasync, hcursor.name_eq, move_of_leads (leads_callRest argument rest)]
  have hword : (here (callRest argument rest) cursor.found).word = "" :=
    word_of_sign rfl (by decide) (by decide)
  have hopen : (here (callRest argument rest) cursor.found).starts "(" = true := rfl
  rw [asyncExpression, hkeyword]
  simp only [Option.bind_eq_bind, Option.bind_some]
  rw [if_neg (by simp [here]), hword, if_neg (by decide), hopen, if_pos rfl, noteArgument_eq,
    hcursor.word_eq, String.toList_ofList, hgroup, Option.bind_some, afterGroup_of_stop]

/-- A call of a name is read, and its argument is recorded. -/
lemma worded_call (hown : cursor.word ∉ ownWords) :
    g.worded cursor = some (here (';' :: rest) (.passed word argument.text :: cursor.found)) := by
  rw [worded_eq g hown]
  split
  case isTrue hasync => exact asyncExpression_call g hcursor hgroup hasync
  case isFalse => exact named_call g hcursor hgroup hown

end Called

end ImportRank.Script.Grammar
