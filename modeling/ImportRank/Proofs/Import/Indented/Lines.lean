import ImportRank.Proofs.Import.Indented.Cutting

/-!
# The lines of printed statements

A line that cannot end where it does is joined with the next one. No line of a printed statement is
such a line: it ends in a name, which is none of the words that have to be followed by something, in
a bracket or in the star of an import of everything; and it has its own `import`, so that it does
not wait for the one that starts the next line. Main statement: `tokens_printed`.
-/

namespace ImportRank.Indented

variable {blanks : List Char} {front tokens before rest : List Token}

/-! ## Tokens within a line -/

/-- A token that ends no line and does not start a statement that asks for members. -/
structure Token.IsInner (token : Token) : Prop where
  noLine : ∀ width, token.kind ≠ .line width
  notFrom : token.text ≠ "from".toList

/-- Tokens of which the last one is a name. -/
def EndInName (tokens : List Token) : Prop :=
  ∃ (front : List Token) (blanks : List Char) (name : Name),
    tokens = front ++ [⟨.word, blanks, name.text⟩]

lemma EndInName.append (htokens : EndInName tokens) : EndInName (front ++ tokens) := by
  obtain ⟨init, blanks, name, rfl⟩ := htokens
  exact ⟨front ++ init, blanks, name, (List.append_assoc _ _ _).symm⟩

lemma Name.text_ne {name : Name} {word : String} (hword : word ∈ reservedWords) :
    name.text ≠ word.toList := by
  intro htext
  refine name.notReserved ?_
  rwa [htext, String.ofList_toList]

lemma Name.isInner (name : Name) : Token.IsInner ⟨.word, blanks, name.text⟩ where
  noLine := fun _ => Kind.noConfusion
  notFrom := name.text_ne (by decide)

lemma isInner_mark {c : Char} : Token.IsInner ⟨.sign, blanks, [c]⟩ where
  noLine := fun _ => Kind.noConfusion
  notFrom := fun htext => by simpa using congrArg List.length htext

/-- What holds of the tokens of each thing holds of things in a row: all are inner tokens, and the
last is a name. -/
lemma several_tokens {α : Type} {cut : List Char → α → List Token} {c : Char}
    {between : List Char} (several : Several α)
    (hcut : ∀ blanks thing, (∀ token ∈ cut blanks thing, token.IsInner) ∧
      EndInName (cut blanks thing)) :
    (∀ token ∈ several.tokens cut c between blanks, token.IsInner) ∧
      EndInName (several.tokens cut c between blanks) := by
  obtain ⟨first, more⟩ := several
  rw [Several.tokens]
  generalize hfront : cut blanks first = front
  have hstart := hcut blanks first
  rw [hfront] at hstart
  clear hfront
  induction more generalizing front with
  | nil => simpa using hstart
  | cons thing more ih =>
    have hthing := hcut between thing
    have hnext := ih (front ++ mark c :: cut between thing) ⟨?_, ?_⟩
    · simpa [List.append_assoc] using hnext
    · intro token htoken
      rw [List.mem_append, List.mem_cons] at htoken
      obtain htoken | rfl | htoken := htoken
      · exact hstart.1 token htoken
      · exact isInner_mark
      · exact hthing.1 token htoken
    · rw [List.append_cons]
      exact hthing.2.append

lemma dotted_tokens (dotted : Dotted) (blanks : List Char) :
    (∀ token ∈ dotted.tokens blanks, token.IsInner) ∧ EndInName (dotted.tokens blanks) := by
  refine several_tokens dotted.names fun blanks name => ⟨?_, [], blanks, name, rfl⟩
  rw [List.forall_mem_singleton]
  exact name.isInner

lemma item_tokens (item : Item Dotted) (blanks : List Char) :
    (∀ token ∈ item.tokens blanks, token.IsInner) ∧ EndInName (item.tokens blanks) := by
  obtain ⟨dotted, other⟩ := item
  obtain ⟨hinner, hend⟩ := dotted_tokens dotted blanks
  cases other with
  | none =>
    simp only [Item.tokens, Item.otherTokens, List.append_nil]
    exact ⟨hinner, hend⟩
  | some other =>
    have has : Token.IsInner ⟨.word, [' '], "as".toList⟩ := ⟨fun _ => Kind.noConfusion, by decide⟩
    refine ⟨?_, EndInName.append ⟨[_], [' '], other, rfl⟩⟩
    intro token htoken
    simp only [Item.tokens, Item.otherTokens, List.mem_append, List.mem_cons, List.not_mem_nil,
      or_false] at htoken
    obtain htoken | rfl | rfl := htoken
    · exact hinner token htoken
    · exact has
    · exact other.isInner

lemma items_tokens (items : Several (Item Dotted)) (blanks : List Char) :
    (∀ token ∈ itemsTokens blanks items, token.IsInner) ∧ EndInName (itemsTokens blanks items) :=
  several_tokens items fun blanks item => item_tokens item blanks

/-! ## Whole lines -/

/-- The tokens of a line, the last one first, after which the next line need not be joined. -/
structure Finished (before : List Token) : Prop where
  last : ∀ token earlier, before = token :: earlier → token.isUnfinished earlier = false
  imported : awaitsImport before = false

lemma joinLines_inner (htokens : ∀ token ∈ tokens, ∀ width, token.kind ≠ .line width) :
    joinLines 0 before (tokens ++ rest) =
      tokens ++ joinLines 0 (tokens.reverse ++ before) rest := by
  induction tokens generalizing before with
  | nil => rfl
  | cons token tokens ih =>
    obtain ⟨htoken, htokens⟩ := List.forall_mem_cons.mp htokens
    rw [List.cons_append, joinLines.eq_5 _ _ _ _ (fun width _ _ hline _ => htoken width hline)
      (fun width hline _ => htoken width hline), ih htokens]
    simp

lemma joinLines_endOfLine (hbefore : Finished before) :
    joinLines 0 before (endOfLine :: rest) =
      endOfLine :: joinLines 0 (endOfLine :: before) rest := by
  cases before with
  | nil => rfl
  | cons token earlier =>
    rw [joinLines.eq_def]
    simp only [endOfLine, hbefore.last token earlier rfl, hbefore.imported, Bool.and_false,
      Bool.or_false, Bool.false_and, Bool.false_eq_true, if_false]

/-- A line waits for `import` only after the word `from`. -/
lemma awaitsImport_eq_false (hfirst : ∀ word ∈ (before.dropWhile fun token =>
      token.text == ['.'] || (token.kind == .word &&
        !(["from", "import"].any (token.text == ·.toList)))).head?, word.text ≠ "from".toList) :
    awaitsImport before = false := by
  unfold awaitsImport
  generalize before.dropWhile _ = name at hfirst ⊢
  rcases name with _ | ⟨word, _ | ⟨last, rest⟩⟩
  · rfl
  · exact beq_eq_false_iff_ne.mpr (hfirst word rfl)
  · dsimp only
    rw [beq_eq_false_iff_ne.mpr (hfirst word rfl), Bool.false_and]

/-- A line that has its own `import` does not wait for another. -/
lemma awaitsImport_of_import (hfront : ∀ token ∈ front, token.text ≠ "from".toList) :
    awaitsImport (front ++ ⟨.word, blanks, "import".toList⟩ :: before) = false := by
  refine awaitsImport_eq_false ?_
  induction front with
  | nil =>
    rintro word ⟨⟩
    exact (by decide : "import".toList ≠ "from".toList)
  | cons token front ih =>
    obtain ⟨htoken, hfront⟩ := List.forall_mem_cons.mp hfront
    rw [List.cons_append, List.dropWhile_cons]
    split
    · exact ih hfront
    · rintro word ⟨⟩
      exact htoken

/-- A name at the end of a line leaves nothing unfinished. -/
lemma isUnfinished_name (name : Name) (earlier : List Token) :
    Token.isUnfinished ⟨.word, blanks, name.text⟩ earlier = false := by
  have hwords : ∀ word ∈ unfinishedWords, word ∈ reservedWords := by decide
  refine Bool.eq_false_iff.mpr fun hword => name.notReserved (hwords _ ?_)
  exact List.contains_iff_mem.mp hword

/-- The part of a line after its `import`, if it ends in a name. -/
lemma finished_of_name (hinner : ∀ token ∈ tokens, token.IsInner) (hend : EndInName tokens) :
    Finished (tokens.reverse ++ ⟨.word, blanks, "import".toList⟩ :: before) where
  last := by
    obtain ⟨init, gap, name, rfl⟩ := hend
    rintro token earlier heq
    rw [List.reverse_append, List.reverse_singleton, List.singleton_append, List.cons_append] at heq
    obtain ⟨rfl, rfl⟩ := List.cons.inj heq
    exact isUnfinished_name name _
  imported := awaitsImport_of_import fun token htoken =>
    (hinner token (List.mem_reverse.mp htoken)).notFrom

lemma finished_members (wanted : Members) (hinner : ∀ token ∈ wanted.tokens, token.IsInner) :
    Finished (wanted.tokens.reverse ++ ⟨.word, blanks, "import".toList⟩ :: before) := by
  have himported :
      awaitsImport (wanted.tokens.reverse ++ ⟨.word, blanks, "import".toList⟩ :: before) = false :=
    awaitsImport_of_import fun token htoken => (hinner token (List.mem_reverse.mp htoken)).notFrom
  cases wanted with
  | all =>
    refine ⟨?_, himported⟩
    rintro token earlier ⟨⟩
    rfl
  | named items => exact finished_of_name hinner (items_tokens _ _).2
  | bracketed items =>
    refine ⟨?_, himported⟩
    rw [Members.tokens, List.reverse_cons, List.reverse_append]
    rintro token earlier ⟨⟩
    rfl

lemma members_tokens (wanted : Members) : ∀ token ∈ wanted.tokens, token.IsInner := by
  cases wanted with
  | all => exact List.forall_mem_singleton.mpr isInner_mark
  | named items => exact (items_tokens _ _).1
  | bracketed items =>
    refine List.forall_mem_cons.mpr ⟨isInner_mark, List.forall_mem_append.mpr ⟨?_, ?_⟩⟩
    · exact (items_tokens _ _).1
    · exact List.forall_mem_singleton.mpr isInner_mark

lemma origin_tokens (origin : Origin) : ∀ token ∈ origin.tokens blanks, token.IsInner := by
  have hmodule : ∀ blanks, ∀ token ∈ (origin.module.map (Dotted.tokens blanks)).getD [],
      token.IsInner := by
    intro blanks
    cases origin.module with
    | none => exact List.forall_mem_nil _
    | some dotted => exact (dotted_tokens dotted blanks).1
  unfold Origin.tokens
  split
  · exact hmodule blanks
  · refine List.forall_mem_cons.mpr ⟨isInner_mark, List.forall_mem_append.mpr ⟨?_, hmodule []⟩⟩
    intro token htoken
    rw [List.eq_of_mem_replicate htoken]
    exact isInner_mark

/-- A statement takes a line, after which nothing is joined. -/
lemma statement_tokens (statement : Statement) :
    ∃ line, statement.tokens = line ++ [endOfLine] ∧
      (∀ token ∈ line, ∀ width, token.kind ≠ .line width) ∧
      ∀ before, Finished (line.reverse ++ before) := by
  cases statement with
  | modules items =>
    obtain ⟨hinner, hend⟩ := items_tokens items [' ']
    refine ⟨⟨.word, [], "import".toList⟩ :: itemsTokens [' '] items, rfl, ?_, fun before => ?_⟩
    · exact List.forall_mem_cons.mpr ⟨fun _ => Kind.noConfusion, fun token htoken =>
        (hinner token htoken).noLine⟩
    · rw [List.reverse_cons, List.append_assoc]
      exact finished_of_name hinner hend
  | members origin wanted =>
    have hinner := members_tokens wanted
    refine ⟨⟨.word, [], "from".toList⟩ ::
      (origin.tokens [' '] ++ ⟨.word, [' '], "import".toList⟩ :: wanted.tokens), ?_, ?_, ?_⟩
    · rw [Statement.tokens, List.cons_append, List.append_assoc, List.cons_append]
    · refine List.forall_mem_cons.mpr ⟨fun _ => Kind.noConfusion,
        List.forall_mem_append.mpr ⟨?_, ?_⟩⟩
      · exact fun token htoken => (origin_tokens origin token htoken).noLine
      · exact List.forall_mem_cons.mpr ⟨fun _ => Kind.noConfusion, fun token htoken =>
          (hinner token htoken).noLine⟩
    · intro before
      have hfinished : Finished (wanted.tokens.reverse ++ ⟨.word, [' '], "import".toList⟩ ::
          ((origin.tokens [' ']).reverse ++ ⟨.word, [], "from".toList⟩ :: before)) :=
        finished_members wanted hinner
      simpa only [List.reverse_cons, List.reverse_append, List.append_assoc, List.nil_append,
        List.cons_append]
        using hfinished

/-- The lines of printed statements stay as they are. -/
lemma joinLines_statements (statements : List Statement) :
    joinLines 0 before (statements.flatMap Statement.tokens) =
      statements.flatMap Statement.tokens := by
  induction statements generalizing before with
  | nil => rfl
  | cons statement statements ih =>
    obtain ⟨line, htokens, hline, hfinished⟩ := statement_tokens statement
    rw [List.flatMap_cons, htokens, List.append_assoc, joinLines_inner hline, List.singleton_append,
      joinLines_endOfLine (hfinished before), ih]

theorem tokens_printed (statements : List Statement) :
    Indented.tokens (printed statements).toList = statements.flatMap Statement.tokens := by
  rw [printed, String.toList_ofList, Indented.tokens,
    cuts_statements statements _ (Nat.lt_succ_self _), joinLines_statements]

end ImportRank.Indented
