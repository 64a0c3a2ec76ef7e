import ImportRank.Import.Indented.Reader
import ImportRank.Proofs.Import.Indented.Lines
import ImportRank.Proofs.Import.Steps

/-!
# Printed statements as they are read

From the tokens of a printed statement the parser reads the statement, with the names and the other
names in it, and goes on after it. Each lemma has some tokens follow what is read, of which it says
with what they do not begin. Main statements: `plainImports_tokens` and `fromImport_tokens`.
-/

namespace ImportRank.Indented

variable {blanks : List Char} {rest : List Token}

/-! ## What is read -/

/-- An item as it is read. -/
def Item.clause (item : Item Dotted) : Clause :=
  { name := item.name.written, other := item.other.map fun other => String.ofList other.text }

/-- A statement as it is read. -/
def Statement.written : Statement → Written
  | modules items => .modules (items.toList.map Item.clause)
  | members origin wanted =>
    .members origin.level (origin.module.map Dotted.written) (wanted.items.map Item.clause)

/-! ## Dotted names -/

/-- A name stops before what is no point. -/
def EndsDotted (rest : List Token) : Prop := ∀ token ∈ rest.head?, token.isSign "." = false

/-- An item stops before what is neither a point nor a word. -/
def EndsItem (rest : List Token) : Prop :=
  EndsDotted rest ∧ ∀ token ∈ rest.head?, token.isWord = false

/-- Items stop before what is no comma either. -/
def EndsItems (rest : List Token) : Prop :=
  EndsItem rest ∧ ∀ token ∈ rest.head?, token.isSign "," = false

lemma dottedRest_of_endsDotted (hrest : EndsDotted rest) : dottedRest rest = ([], rest) := by
  rcases rest with _ | ⟨dot, _ | ⟨next, rest⟩⟩
  · rfl
  · rfl
  · rw [dottedRest, hrest dot rfl, Bool.false_and, if_neg Bool.false_ne_true]

lemma dottedName_word {text : List Char} :
    dottedName (⟨.word, blanks, text⟩ :: rest) =
      some (String.ofList (text ++ (dottedRest rest).1), (dottedRest rest).2) := rfl

lemma dottedName_tokens (dotted : Dotted) (hrest : EndsDotted rest) :
    dottedName (dotted.tokens blanks ++ rest) = some (dotted.written, rest) := by
  obtain ⟨⟨first, more⟩⟩ := dotted
  have hmore : dottedRest ((more.flatMap fun name => [mark '.', ⟨.word, [], name.text⟩]) ++ rest) =
      (more.flatMap fun name => '.' :: name.text, rest) := by
    induction more with
    | nil => exact dottedRest_of_endsDotted hrest
    | cons name more ih =>
      have hpoint : dottedRest (mark '.' :: ⟨.word, [], name.text⟩ ::
          ((more.flatMap fun name => [mark '.', ⟨.word, [], name.text⟩]) ++ rest)) =
          ('.' :: name.text ++ (more.flatMap fun name => '.' :: name.text), rest) := by
        rw [dottedRest, ih]
        rfl
      exact hpoint
  simp only [Dotted.tokens, Several.tokens, List.cons_append, List.nil_append, dottedName_word,
    hmore]
  rfl

/-- A word that is reserved is no dotted name. -/
lemma Dotted.written_ne {word : String} (dotted : Dotted) (hword : word ∈ reservedWords)
    (hpoint : '.' ∉ word.toList) : dotted.written ≠ word := by
  obtain ⟨⟨first, more⟩⟩ := dotted
  intro hwritten
  have htext : first.text ++ (more.flatMap fun name => ['.'] ++ name.text) = word.toList := by
    rw [← hwritten, written, String.toList_ofList]
    rfl
  cases more with
  | nil =>
    rw [List.flatMap_nil, List.append_nil] at htext
    exact first.text_ne hword htext
  | cons name more =>
    refine hpoint ?_
    rw [← htext]
    simp

/-! ## Items -/

lemma importedName_tokens (item : Item Dotted) (hrest : EndsItem rest) :
    importedName (item.tokens blanks ++ rest) = some (item.clause, rest) := by
  obtain ⟨dotted, other⟩ := item
  cases other with
  | none =>
    simp only [Item.tokens, Item.otherTokens, List.append_nil]
    rw [importedName, dottedName_tokens dotted hrest.1]
    cases rest with
    | nil => rfl
    | cons token rest =>
      simp only [Option.bind_eq_bind, Option.bind_some, hrest.2 token rfl, Bool.false_and,
        Bool.false_eq_true, if_false]
      rfl
  | some other =>
    rw [Item.tokens, Item.otherTokens, List.append_assoc, importedName,
      dottedName_tokens dotted (by rintro token ⟨⟩; rfl)]
    rfl

/-- The last of some items. -/
lemma importedNames_one (item : Item Dotted) (hrest : EndsItems rest) (count : ℕ) :
    importedNames (count + 1) (item.tokens blanks ++ rest) = some ([item.clause], rest) := by
  rw [importedNames, importedName_tokens item hrest.1]
  cases rest with
  | nil => rfl
  | cons token rest =>
    simp only [Option.bind_eq_bind, Option.bind_some, hrest.2 token rfl, Bool.false_eq_true,
      if_false]
    rfl

/-- An item before others. -/
lemma importedNames_comma {clauses : List Clause} {after : List Token} (item : Item Dotted)
    {count : ℕ} (hafter : importedNames count rest = some (clauses, after)) :
    importedNames (count + 1) (item.tokens blanks ++ mark ',' :: rest) =
      some (item.clause :: clauses, after) := by
  have hends : EndsItem (mark ',' :: rest) := by
    constructor <;> rintro token ⟨⟩ <;> rfl
  rw [importedNames, importedName_tokens item hends]
  simp only [Option.bind_eq_bind, Option.bind_some, hafter]
  rfl

lemma importedNames_tokens (items : Several (Item Dotted)) (hrest : EndsItems rest) {count : ℕ}
    (hcount : items.toList.length ≤ count) :
    importedNames count (itemsTokens blanks items ++ rest) =
      some (items.toList.map Item.clause, rest) := by
  obtain ⟨first, more⟩ := items
  rw [Several.toList, List.length_cons] at hcount
  obtain ⟨count, rfl⟩ := Nat.exists_eq_succ_of_ne_zero (by omega : count ≠ 0)
  rw [itemsTokens, Several.tokens, List.append_assoc]
  dsimp only at hcount ⊢
  induction more generalizing first blanks count with
  | nil => exact importedNames_one first hrest count
  | cons next more ih =>
    rw [List.length_cons] at hcount
    obtain ⟨count, rfl⟩ := Nat.exists_eq_succ_of_ne_zero (by omega : count ≠ 0)
    have hnext := @ih [' '] next count (by omega)
    rw [List.flatMap_cons, List.cons_append, List.cons_append, List.append_assoc]
    exact importedNames_comma first hnext

/-- Items start with a word. -/
lemma exists_itemsTokens (items : Several (Item Dotted)) (blanks : List Char) :
    ∃ (name : Name) (more : List Token),
      itemsTokens blanks items = ⟨.word, blanks, name.text⟩ :: more :=
  ⟨items.first.name.names.first, _, rfl⟩

/-- There are not more items than tokens. -/
lemma length_le_itemsTokens (items : Several (Item Dotted)) (blanks : List Char) :
    items.toList.length ≤ (itemsTokens blanks items).length := by
  obtain ⟨first, more⟩ := items
  have hfirst : 0 < (first.tokens blanks).length := Nat.succ_pos _
  have hmore : more.length ≤ (more.flatMap fun item => mark ',' :: item.tokens [' ']).length :=
    Recognizer.length_le_flatMap (fun _ => List.cons_ne_nil _ _) more
  rw [itemsTokens, Several.tokens, List.length_append, Several.toList, List.length_cons]
  dsimp only
  omega

/-! ## Members -/

lemma endsItems_sign (rest : List Token) : EndsItems (mark ')' :: rest) := by
  refine ⟨⟨?_, ?_⟩, ?_⟩ <;> rintro token ⟨⟩ <;> rfl

lemma endsItems_endOfLine (rest : List Token) : EndsItems (endOfLine :: rest) := by
  refine ⟨⟨?_, ?_⟩, ?_⟩ <;> rintro token ⟨⟩ <;> rfl

/-- The limit on the number of items is that of the tokens, and so no limit. -/
lemma importedNames_length (items : Several (Item Dotted)) (blanks : List Char)
    (hrest : EndsItems rest) :
    importedNames (itemsTokens blanks items ++ rest).length (itemsTokens blanks items ++ rest) =
      some (items.toList.map Item.clause, rest) := by
  refine importedNames_tokens items hrest ?_
  have hlength := length_le_itemsTokens items blanks
  rw [List.length_append]
  omega

lemma fromNames_tokens (wanted : Members) (rest : List Token) :
    fromNames (wanted.tokens ++ endOfLine :: rest) =
      some (wanted.items.map Item.clause, endOfLine :: rest) := by
  cases wanted with
  | all => rfl
  | named items =>
    have hitems := importedNames_length (items.map Item.dotted) [' '] (endsItems_endOfLine rest)
    obtain ⟨name, more, hhead⟩ := exists_itemsTokens (items.map Item.dotted) [' ']
    rw [Members.tokens, Members.items, ← hitems, hhead]
    rfl
  | bracketed items =>
    have hitems := importedNames_length (items.map Item.dotted) []
      (endsItems_sign (endOfLine :: rest))
    rw [Members.tokens, Members.items, List.cons_append, List.append_assoc, fromNames]
    simp only [List.cons_append, List.nil_append, hitems]
    rfl

lemma importPart_tokens (wanted : Members) (rest : List Token) :
    importPart (⟨.word, blanks, "import".toList⟩ :: (wanted.tokens ++ endOfLine :: rest)) =
      some (wanted.items.map Item.clause, endOfLine :: rest) := by
  rw [importPart, if_pos (by rw [beq_self_eq_true]; rfl), fromNames_tokens]

/-! ## Origins -/

lemma leadingDots_of_endsDotted (hrest : EndsDotted rest) : leadingDots rest = (0, rest) := by
  cases rest with
  | nil => rfl
  | cons token rest => rw [leadingDots, hrest token rfl, if_neg Bool.false_ne_true]

lemma leadingDots_point :
    leadingDots (⟨.sign, blanks, ['.']⟩ :: rest) =
      ((leadingDots rest).1 + 1, (leadingDots rest).2) := rfl

lemma leadingDots_replicate (level : ℕ) (hrest : EndsDotted rest) :
    leadingDots (List.replicate level (mark '.') ++ rest) = (level, rest) := by
  induction level with
  | zero => exact leadingDots_of_endsDotted hrest
  | succ level ih =>
    rw [List.replicate_succ, List.cons_append, mark, leadingDots_point, ← mark, ih]

lemma endsDotted_word (blanks text : List Char) (rest : List Token) :
    EndsDotted (⟨.word, blanks, text⟩ :: rest) := by
  rintro token ⟨⟩
  rfl

lemma endsDotted_module (blanks : List Char) (module : Option Dotted) (hrest : EndsDotted rest) :
    EndsDotted ((module.map (Dotted.tokens blanks)).getD [] ++ rest) := by
  cases module with
  | none => exact hrest
  | some dotted => exact endsDotted_word _ _ _

/-- From a module, however many dots are in front of it. -/
lemma fromImport_module {tokens : List Token} {level : ℕ} (dotted : Dotted) (wanted : Members)
    (hlevel : leadingDots tokens = (level, dotted.tokens blanks ++
      ⟨.word, [' '], "import".toList⟩ :: (wanted.tokens ++ endOfLine :: rest)))
    (hfeature : level = 0 → dotted.written ≠ "__future__") :
    fromImport tokens =
      some (.members level (some dotted.written) (wanted.items.map Item.clause),
        endOfLine :: rest) := by
  have himport : dotted.written ≠ "import" := dotted.written_ne (by decide) (by decide)
  rw [fromImport, hlevel]
  dsimp only
  rw [dottedName_tokens dotted (endsDotted_word _ _ _)]
  dsimp only
  rw [if_neg fun h => himport h.1, importPart_tokens]
  simp only [Option.bind_eq_bind, Option.bind_some]
  rw [if_neg fun h => hfeature h.2 h.1]
  rfl

/-- From where the dots lead. The parser takes the word `import` for a module at first. -/
lemma fromImport_dots {tokens : List Token} {level : ℕ} (wanted : Members)
    (hlevel : leadingDots tokens =
      (level + 1, ⟨.word, [' '], "import".toList⟩ :: (wanted.tokens ++ endOfLine :: rest))) :
    fromImport tokens =
      some (.members (level + 1) none (wanted.items.map Item.clause), endOfLine :: rest) := by
  have hname :
      dottedName (⟨.word, [' '], "import".toList⟩ :: (wanted.tokens ++ endOfLine :: rest)) =
      some ("import", wanted.tokens ++ endOfLine :: rest) := by
    have hwanted : EndsDotted (wanted.tokens ++ endOfLine :: rest) := by
      cases wanted <;> rintro token ⟨⟩ <;> rfl
    rw [dottedName_word, dottedRest_of_endsDotted hwanted, List.append_nil, String.ofList_toList]
  rw [fromImport, hlevel]
  dsimp only
  rw [hname]
  dsimp only
  rw [if_pos ⟨rfl, Nat.succ_ne_zero level⟩, importPart_tokens]
  rfl

lemma fromImport_tokens (origin : Origin) (wanted : Members) (rest : List Token) :
    fromImport (origin.tokens [' '] ++
        ⟨.word, [' '], "import".toList⟩ :: (wanted.tokens ++ endOfLine :: rest)) =
      some ((Statement.members origin wanted).written, endOfLine :: rest) := by
  obtain ⟨level, module, hpresent, hfeature⟩ := origin
  cases level with
  | zero =>
    obtain ⟨dotted, rfl⟩ := Option.ne_none_iff_exists'.mp (hpresent rfl)
    exact fromImport_module dotted wanted (leadingDots_of_endsDotted (endsDotted_word _ _ _))
      fun _ => hfeature rfl dotted rfl
  | succ level =>
    have hrest := endsDotted_word [' '] "import".toList (wanted.tokens ++ endOfLine :: rest)
    have hlevel := leadingDots_replicate level (endsDotted_module [] module hrest)
    have hdots : leadingDots (Origin.tokens [' '] ⟨level + 1, module, hpresent, hfeature⟩ ++
        ⟨.word, [' '], "import".toList⟩ :: (wanted.tokens ++ endOfLine :: rest)) =
        (level + 1, (module.map (Dotted.tokens [])).getD [] ++
          ⟨.word, [' '], "import".toList⟩ :: (wanted.tokens ++ endOfLine :: rest)) := by
      rw [Origin.tokens, List.cons_append, leadingDots_point, List.append_assoc, hlevel]
    cases module with
    | none => exact fromImport_dots wanted hdots
    | some dotted =>
      exact fromImport_module dotted wanted hdots fun h => absurd h (Nat.succ_ne_zero _)

/-! ## Modules -/

lemma plainImports_tokens (items : Several (Item Dotted)) (hrest : EndsItems rest) :
    plainImports (itemsTokens blanks items ++ rest) =
      some ((Statement.modules items).written, rest) := by
  rw [plainImports, importedNames_length items blanks hrest]
  rfl

end ImportRank.Indented
