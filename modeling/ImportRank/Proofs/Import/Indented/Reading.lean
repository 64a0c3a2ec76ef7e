import ImportRank.Proofs.Import.Indented.Parsing
import ImportRank.Proofs.Import.Indented.Trees
import ImportRank.Proofs.Import.Recognition

/-!
# Printed sources, recognized

The grammar of this library reads what was printed: whatever import statements a source consists
of, it is recognized as a whole, and its tree has the nodes of the statements. So the imports found
are those that the statements stand for. Main statements: `written_printed` and
`recognizing_shows_printed`.
-/

namespace ImportRank.Indented

open Parse (SyntaxNode Engine isAsked)

variable {reader : Reader} {rest : List Token} {depth : ℕ}

/-! ## Statements -/

/-- An import statement is read up to the end of its line. -/
lemma importStatement_tokens (statement : Statement)
    (htokens : reader.tokens = statement.tokens ++ rest) :
    importStatement reader =
      some { reader.note statement.written with tokens := endOfLine :: rest } := by
  cases statement with
  | modules items =>
    simp only [Statement.tokens, List.cons_append, List.append_assoc, List.nil_append] at htokens
    rw [importStatement, htokens]
    generalize "import".toList = word
    dsimp only
    rw [if_pos rfl, plainImports_tokens items (endsItems_endOfLine rest)]
    rfl
  | members origin wanted =>
    simp only [Statement.tokens, List.cons_append, List.append_assoc, List.nil_append] at htokens
    rw [importStatement, htokens]
    dsimp only
    rw [if_neg (by decide), fromImport_tokens origin wanted rest]
    rfl

lemma word_statement (statement : Statement) (htokens : reader.tokens = statement.tokens ++ rest) :
    reader.word = "import" ∨ reader.word = "from" := by
  rw [Reader.word, htokens]
  cases statement with
  | modules items => exact Or.inl String.ofList_toList
  | members origin wanted => exact Or.inr String.ofList_toList

/-- A statement alone on its line. -/
lemma simples_statement (g : Grammar) (statement : Statement)
    (htokens : reader.tokens = statement.tokens ++ rest) :
    g.simples reader = some { reader.note statement.written with tokens := rest, column := 0 } := by
  have hsimple : g.simple reader = importStatement reader := by
    unfold Grammar.simple
    obtain hword | hword := word_statement statement htokens <;> rw [hword] <;> rfl
  rw [Grammar.simples, hsimple, importStatement_tokens statement htokens]
  rfl

lemma recognize_statement (statement : Statement)
    (htokens : reader.tokens = statement.tokens ++ rest) :
    recognize (depth + 1) .statement reader =
      some { reader.note statement.written with tokens := rest, column := 0 } := by
  have hsign : reader.hasSign "@" = false := by
    rw [Reader.hasSign, htokens]
    cases statement <;> rfl
  rw [← simples_statement ⟨recognize depth⟩ statement htokens]
  show Grammar.statement ⟨recognize depth⟩ reader = _
  unfold Grammar.statement
  rw [hsign, if_neg Bool.false_ne_true]
  obtain hword | hword := word_statement statement htokens <;> rw [hword] <;> rfl

/-! ## Sources -/

/-- A reader before some statements, when all of the source is some statements: those found so far
and those that are still to be read. -/
structure Before (all : List Written) (statements : List Statement) (reader : Reader) : Prop where
  tokens : reader.tokens = statements.flatMap Statement.tokens
  column : reader.column = 0
  found : reader.found.reverse ++ statements.map Statement.written = all

lemma Before.next {all : List Written} {statement : Statement} {statements : List Statement}
    (hbefore : Before all (statement :: statements) reader) (depth : ℕ) :
    ∃ next, recognize (depth + 1) .statement reader = some next ∧ Before all statements next := by
  have htokens : reader.tokens = statement.tokens ++ statements.flatMap Statement.tokens :=
    hbefore.tokens
  refine ⟨_, recognize_statement statement htokens, rfl, rfl, ?_⟩
  rw [← hbefore.found, Reader.note, List.reverse_cons, List.append_assoc, List.singleton_append,
    List.map_cons]

lemma tokens_ne_nil (statement : Statement) : statement.tokens ≠ [] := by
  cases statement <;> exact List.cons_ne_nil _ _

/-- The step with which a source is read. -/
def sourceStep (depth : ℕ) (reader : Reader) : Option (Option Reader) :=
  if reader.tokens.isEmpty || reader.column < 0 then some none
  else (recognize depth .statement reader).map some

lemma sourceStep_done {all : List Written} (depth : ℕ) (hbefore : Before all [] reader) :
    sourceStep depth reader = some none := by
  rw [sourceStep, hbefore.tokens]
  rfl

lemma sourceStep_next {all : List Written} {statement : Statement} {statements : List Statement}
    (depth : ℕ) (hbefore : Before all (statement :: statements) reader) :
    ∃ next, sourceStep (depth + 1) reader = some (some next) ∧ Before all statements next := by
  obtain ⟨next, hnext, hafter⟩ := hbefore.next depth
  refine ⟨next, ?_, hafter⟩
  have htokens : reader.tokens.isEmpty = false := by
    rw [hbefore.tokens]
    cases statement <;> rfl
  rw [sourceStep, htokens, hbefore.column, hnext]
  rfl

/-- A source of statements is recognized as a whole. -/
lemma source_statements (statements : List Statement) (depth : ℕ) :
    ∃ last, source (depth + 1) (Reader.start (statements.flatMap Statement.tokens)) = some last ∧
      last.found.reverse = statements.map Statement.written := by
  have hstart : Before (statements.map Statement.written) statements
      (Reader.start (statements.flatMap Statement.tokens)) := ⟨rfl, rfl, rfl⟩
  obtain ⟨last, hlast, hdone⟩ := Recognizer.exists_steps
    (fun _ => sourceStep_done (depth + 1)) (fun _ _ _ => sourceStep_next depth)
    (Recognizer.length_le_flatMap tokens_ne_nil statements) hstart
  refine ⟨{ last with level := 0 }, ?_, (List.append_nil _).symm.trans hdone.found⟩
  exact congrArg (Option.bind · fun after => some { after with level := 0 }) hlast

theorem written_printed (statements : List Statement) :
    written (printed statements).toList = (statements.map Statement.written, true) := by
  obtain ⟨depth, hdepth⟩ : ∃ depth,
      depthFor (statements.flatMap Statement.tokens).length = depth + 1 :=
    Nat.exists_eq_succ_of_ne_zero (by unfold depthFor; omega)
  obtain ⟨last, hlast, hfound⟩ := source_statements statements depth
  rw [written, tokens_printed, hdepth, hlast, ← hfound]

/-! ## Trees -/

lemma isNode_name {dotted : Dotted} {node : SyntaxNode}
    (hnode : node.Spells "dotted_name" dotted.written.toList) : dotted.IsNode node := by
  rwa [Dotted.written, String.toList_ofList] at hnode

lemma isNode_item (place : ℕ) (item : Item Dotted) :
    item.IsNode ((item.clause.node place).within "name") := by
  obtain ⟨dotted, other⟩ := item
  cases other with
  | none => exact .plain rfl (isNode_name ⟨⟨rfl, rfl⟩, rfl⟩)
  | some other => exact .aliased _ nofun ⟨rfl, rfl⟩ rfl (isNode_name ⟨⟨rfl, rfl⟩, rfl⟩)

lemma isNode_origin (place : ℕ) (origin : Origin) :
    origin.IsNode ((originNode place origin.level (origin.module.map Dotted.written)).within
      "module_name") := by
  obtain ⟨level, _ | module, hpresent, hfeature⟩ := origin <;> rcases level with _ | level
  · exact absurd rfl (hpresent rfl)
  · exact .dots _ nofun rfl ⟨rfl, rfl⟩ rfl ⟨⟨rfl, rfl⟩, rfl⟩
  · exact .absolute module rfl rfl (isNode_name ⟨⟨rfl, rfl⟩, rfl⟩)
  · exact .relative module _ _ nofun rfl ⟨rfl, rfl⟩ rfl ⟨⟨rfl, rfl⟩, rfl⟩
      (isNode_name ⟨⟨rfl, rfl⟩, rfl⟩)

lemma isNode_items (place : ℕ) (items : List (Item Dotted)) :
    List.Forall₂ Item.IsNode items (itemNodes place (items.map Item.clause)) := by
  rw [itemNodes, List.map_map, List.forall₂_map_right_iff]
  exact List.forall₂_same.mpr fun item _ => isNode_item place item

/-- The node that is made of a statement is one of it. -/
lemma isNode_written (place : ℕ) (statement : Statement) :
    statement.IsNode (statement.written.node place) := by
  cases statement with
  | modules items =>
    refine .modules ⟨rfl, rfl⟩ ?_
    rw [Statement.written, childrenIn_modules]
    exact isNode_items place items.toList
  | members origin wanted =>
    refine .members _ ⟨rfl, rfl⟩ rfl (isNode_origin place origin) ?_
    rw [Statement.written, childrenIn_members]
    exact isNode_items place wanted.items

/-- The tree of a printed source shows its statements. -/
theorem recognizing_shows_printed (statements : List Statement) :
    (Engine.recognizing.parse .python (printed statements).toUTF8.data.toList).Shows dottedQuery
      Statement.IsNode statements := by
  have htree : Engine.recognizing.parse .python (printed statements).toUTF8.data.toList =
      recognizedTree Written.node (statements.map Statement.written, true) := by
    show recognizedTree Written.node (written (Text.decodeLenient _)) = _
    rw [Text.decodeLenient_toUTF8, written_printed]
  have hasked : ∀ node ∈ (statements.map Statement.written).mapIdx Written.node,
      isAsked dottedQuery node = true := by
    intro node hnode
    obtain ⟨place, hplace, rfl⟩ := List.mem_mapIdx.mp hnode
    obtain ⟨statement, -, hstatement⟩ := List.mem_map.mp (List.getElem_mem hplace)
    rw [← hstatement]
    cases statement <;> rfl
  rw [htree]
  refine ⟨rfl, ?_, apart_written _⟩
  rw [asked_written, List.filter_eq_self.mpr hasked]
  exact List.forall₂_iff_get.mpr ⟨by simp, by simp [isNode_written]⟩

theorem extract_printed (statements : List Statement) :
    extract .python (printed statements).toUTF8.data.toList =
      { imports := statements.flatMap Statement.imports, complete := true } := by
  rw [extract_python_eq, Text.decodeLenient_toUTF8, written_printed, List.flatMap_map]
  congr 1
  refine List.flatMap_congr fun statement _ => ?_
  rw [← ofStatement_node 0, (isNode_written 0 statement).ofStatement_eq]

end ImportRank.Indented
