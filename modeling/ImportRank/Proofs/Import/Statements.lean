import ImportRank.Proofs.Import.Findings

/-!
# Imports of single statements

What the query of a language matches at each kind of node that it asks for, and what comes of it.
In the dotted form an import statement is matched as a whole. Of the statements of a script only
those that name a file are matched, and a call counts by the name that is called. Main statements:
`extract_dotted`, `Names.makes`, `Calls.makes_of_require` and `Calls.makes_of_other`.
-/

namespace ImportRank.Extraction

open Parse (SyntaxNode Tree Match Engine matchesAt matchesIn isAsked partsMatchAmong choices)

variable {node : SyntaxNode} {found : Match} {literal : List Char}

/-! ## Statements in the dotted form -/

lemma matchesAt_dottedQuery (hnode : isAsked dottedQuery node) :
    matchesAt dottedQuery node = [[("import", node)]] := by
  simp only [isAsked, dottedQuery, List.any_cons, List.any_nil, Bool.or_false, Bool.and_eq_true,
    Bool.or_eq_true, beq_iff_eq] at hnode
  obtain ⟨hnamed, hkind | hkind⟩ := hnode <;>
    simp [matchesAt, dottedQuery, Parse.Pattern.matchesAt, partsMatchAmong, hnamed, ← hkind]

/-- At an import statement everything is made that it imports, one after another. -/
theorem makes_ofStatement (hnode : isAsked dottedQuery node) :
    Makes dottedQuery node (ofStatement node) := by
  have hfound : foundAt dottedQuery node =
      (ofStatement node).mapIdx fun offset record => ⟨node.start, offset, record⟩ := by
    rw [foundAt, matchesAt_dottedQuery hnode, List.flatMap_singleton]
    rfl
  refine { records := ?records, ordered := ?ordered, inside := ?inside }
  case records =>
    rw [hfound]
    exact List.ext_getElem (by simp) (by simp)
  case ordered =>
    rw [hfound, List.pairwise_iff_getElem]
    intro i j hi hj hij
    rw [List.getElem_mapIdx, List.getElem_mapIdx]
    exact Or.inr ⟨rfl, hij⟩
  case inside =>
    intro finding hfinding
    rw [hfound] at hfinding
    obtain ⟨i, hi, rfl⟩ := List.mem_mapIdx.mp hfinding
    exact ⟨node, node.mem_nodes_self, rfl⟩

lemma ofStatement_import (hnode : node.IsRule "import_statement") :
    ofStatement node = (namesOf node).map Import.plain := by
  rw [ofStatement, if_pos hnode.kind]

lemma ofStatement_from {module : SyntaxNode} (hnode : node.IsRule "import_from_statement")
    (hmodule : node.childIn? "module_name" = some module) :
    ofStatement node = [⟨(originOf module).2, (originOf module).1, namesOf node⟩] := by
  rw [ofStatement, if_neg (by rw [hnode.kind]; decide), hmodule]

/-! ## Where members are imported from -/

lemma originOf_name {text : List Char} (hnode : node.Spells "dotted_name" text) :
    originOf node = (0, String.ofList text) := by
  rw [originOf, if_neg (by rw [hnode.kind]; decide), hnode.spelling_eq]

section Relative

variable {level : ℕ} {dots : SyntaxNode} (hnode : node.IsRule "relative_import")
  (hdots : dots.Spells "import_prefix" (List.replicate level '.'))

include hnode hdots

lemma originOf_dots (hchildren : node.children = [dots]) : originOf node = (level, "") := by
  rw [originOf, if_pos hnode.kind, relativeOrigin, hchildren]
  simp only [List.foldl_cons, List.foldl_nil]
  rw [if_pos hdots.kind, hdots.spelling_eq, List.count_replicate_self]

lemma originOf_dots_name {name : SyntaxNode} {text : List Char}
    (hname : name.Spells "dotted_name" text) (hchildren : node.children = [dots, name]) :
    originOf node = (level, String.ofList text) := by
  rw [originOf, if_pos hnode.kind, relativeOrigin, hchildren]
  simp only [List.foldl_cons, List.foldl_nil]
  rw [if_pos hdots.kind, if_neg (by rw [hname.kind]; decide), if_pos hname.kind, hdots.spelling_eq,
    hname.spelling_eq, List.count_replicate_self]

end Relative

/-! ## Sources in the dotted form -/

/-- In a dotted language the imports of a source are those of the import statements in its tree,
one statement after another. -/
theorem extract_dotted {engine : Engine} {bytes : List UInt8} {tree : Tree}
    (htree : engine.parse .python bytes = tree)
    (hfind : (engine.find dottedQuery tree.root).Perm (matchesIn dottedQuery tree.root))
    (hapart : (tree.asked dottedQuery).Pairwise SyntaxNode.Before)
    (hempty : bytes = [] → tree.asked dottedQuery = [] ∧ tree.hasError = false) :
    engine.extract .python bytes =
      { imports := (tree.asked dottedQuery).flatMap ofStatement, complete := !tree.hasError } := by
  refine Engine.extract_eq _ _ htree hfind (List.forall₂_same.mpr fun node hnode => ?_) hapart
    hempty
  exact makes_ofStatement (List.mem_filter.mp hnode).2

/-! ## Strings that name files -/

lemma importQuery_of_ne {language : Language} (hlanguage : language ≠ .python) :
    importQuery language = scriptQuery := by
  cases language
  · exact absurd rfl hlanguage
  all_goals rfl

/-- The import of the file that a string names, unless it is empty. -/
def namedBy (literal : List Char) : List Import :=
  if (Text.unquoted literal).isEmpty then []
  else [Import.plain (String.ofList (Text.unquoted literal))]

/-- What a match of a string makes, when what is called does not speak against it. -/
lemma ofMatch_source {file : SyntaxNode} (himport : found.captured "import" = [])
    (hsource : found.captured "source" = [file]) (hfile : file.Spells "string" literal)
    (hcalled : callsOther found = false) :
    ofMatch found = (namedBy literal).map fun record => ⟨file.start, 0, record⟩ := by
  rw [ofMatch, himport]
  dsimp only
  rw [hsource]
  dsimp only
  rw [hcalled, hfile.spelling_eq, Bool.false_or, namedBy]
  split <;> rfl

/-- A match of a call makes nothing unless `require` is called. -/
lemma ofMatch_of_other {called : SyntaxNode} {rest : Match} (himport : rest.captured "import" = [])
    (hcalled : called.spelling ≠ "require".toList) : ofMatch (("callee", called) :: rest) = [] := by
  have hother : callsOther (("callee", called) :: rest) = true := by
    have hname : String.ofList called.spelling ≠ "require" := fun h =>
      hcalled (by rw [← h, String.toList_ofList])
    show (!requiringNames.contains (String.ofList called.spelling)) = true
    simp [requiringNames, hname]
  have himported : Match.captured (("callee", called) :: rest) "import" = [] := himport
  rw [ofMatch, himported]
  dsimp only
  rw [hother]
  split <;> rfl

/-- What is made at a node where one string is found. -/
lemma makes_namedBy {query : List Parse.Pattern} {file : SyntaxNode} (hfile : file ∈ node.nodes)
    (hfound : foundAt query node =
      (namedBy literal).map fun record => ⟨file.start, 0, record⟩) :
    Makes query node (namedBy literal) := by
  refine { records := ?records, ordered := ?ordered, inside := ?inside }
  case records =>
    rw [hfound, List.map_map]
    exact List.map_id _
  case ordered =>
    rw [hfound, namedBy]
    split
    · exact List.Pairwise.nil
    · exact List.pairwise_singleton _ _
  case inside =>
    intro finding hfinding
    rw [hfound] at hfinding
    obtain ⟨record, -, rfl⟩ := List.mem_map.mp hfinding
    exact ⟨file, hfile, rfl⟩

/-! ## Statements of scripts -/

/-- A statement that names a file has one string in the field for it. -/
structure Names (node : SyntaxNode) (literal : List Char) (file : SyntaxNode) : Prop where
  source : node.childrenIn "source" = [file]
  spells : file.Spells "string" literal

namespace Names

variable {file : SyntaxNode} (hnode : Names node literal file)

include hnode

lemma mem_childrenIn : file ∈ node.childrenIn "source" :=
  hnode.source ▸ List.mem_singleton_self file

lemma mem_nodes : file ∈ node.nodes := by
  rw [SyntaxNode.nodes_eq]
  refine List.mem_cons_of_mem _ (List.mem_flatMap.mpr ⟨file, ?_, file.mem_nodes_self⟩)
  exact List.mem_of_mem_filter hnode.mem_childrenIn

lemma partsMatchAmong_eq : partsMatchAmong [Pattern.file] node.children = [[("source", file)]] := by
  have hfield : file.field = some "source" :=
    of_decide_eq_true (List.mem_filter.mp hnode.mem_childrenIn).2
  rw [Parse.partsMatchAmong_field rfl rfl, hnode.source, List.flatMap_singleton,
    Parse.Pattern.matchesAt_eq, if_pos ⟨hnode.spells.named, hnode.spells.kind, Or.inr hfield⟩]
  rfl

lemma matchesAt_eq (hkind : node.IsRule "import_statement" ∨ node.IsRule "export_statement") :
    matchesAt scriptQuery node = [[("source", file)]] := by
  have hfile := hnode.partsMatchAmong_eq
  rcases hkind with ⟨hnamed, hkind⟩ | ⟨hnamed, hkind⟩ <;>
    simp [matchesAt, scriptQuery, Pattern.call, Parse.Pattern.matchesAt_eq, hnamed, hkind, hfile]

/-- At an import or export statement with a file the file is imported. -/
theorem makes (hkind : node.IsRule "import_statement" ∨ node.IsRule "export_statement") :
    Makes scriptQuery node (namedBy literal) := by
  refine makes_namedBy hnode.mem_nodes ?_
  rw [foundAt, hnode.matchesAt_eq hkind, List.flatMap_singleton]
  exact ofMatch_source rfl rfl hnode.spells rfl

end Names

/-- A call of something with a string for its first argument. What is called may be any node. -/
structure Calls (node : SyntaxNode) (literal : List Char) (called arguments file : SyntaxNode) :
    Prop extends node.IsRule "call_expression" where
  children : node.children = [called, arguments]
  function : called.field = some "function"
  group : arguments.IsRule "arguments"
  given : arguments.field = some "arguments"
  inside : ∃ opening rest, arguments.children = opening :: file :: rest ∧ opening.named = false
  spells : file.Spells "string" literal

namespace Calls

variable {called arguments file : SyntaxNode} (hnode : Calls node literal called arguments file)

include hnode

lemma mem_nodes : file ∈ node.nodes := by
  obtain ⟨opening, rest, hinside, -⟩ := hnode.inside
  have hfile : file ∈ arguments.nodes := by
    rw [SyntaxNode.nodes_eq, hinside]
    simp [file.mem_nodes_self]
  rw [SyntaxNode.nodes_eq, hnode.children]
  simp [hfile]

/-- The dot before a string admits the sign in front of it, and no other string after it. -/
lemma matchesAt_argument : Pattern.argument.matchesAt arguments = [[("source", file)]] := by
  obtain ⟨opening, rest, hinside, hopening⟩ := hnode.inside
  simp [Pattern.argument, Parse.Pattern.matchesAt_eq, partsMatchAmong, choices, hinside, hopening,
    hnode.group.named, hnode.group.kind, hnode.given, hnode.spells.named, hnode.spells.kind]

lemma matchesAt_callee :
    Pattern.callee.matchesAt called =
      if called.named ∧ called.kind = "identifier" then [[("callee", called)]] else [] := by
  simp [Pattern.callee, Parse.Pattern.matchesAt_eq, partsMatchAmong, hnode.function]

lemma matchesAt_eq :
    matchesAt scriptQuery node =
      if called.named ∧ called.kind = "identifier" then [[("callee", called), ("source", file)]]
      else [] := by
  have hgroup : Pattern.callee.matchesAt arguments = [] := by
    rw [Parse.Pattern.matchesAt_eq, if_neg]
    rintro ⟨-, hkind, -⟩
    rw [hnode.group.kind] at hkind
    exact absurd hkind (by decide)
  have hcall : matchesAt scriptQuery node =
      partsMatchAmong [Pattern.callee, Pattern.argument] [called, arguments] := by
    simp [matchesAt, scriptQuery, Pattern.call, Parse.Pattern.matchesAt_eq, hnode.named, hnode.kind,
      hnode.children]
  have hfree : Pattern.callee.next = false ∧ Pattern.argument.next = false := ⟨rfl, rfl⟩
  rw [hcall]
  simp only [partsMatchAmong, choices, hfree, hgroup, hnode.matchesAt_callee,
    hnode.matchesAt_argument, Bool.false_and, Bool.false_eq_true, if_false, List.flatMap_cons,
    List.flatMap_nil, List.append_nil]
  split <;> rfl

/-- A call of `require` imports the file that its argument names. -/
theorem makes_of_require (hcalled : called.Spells "identifier" "require".toList) :
    Makes scriptQuery node (namedBy literal) := by
  refine makes_namedBy hnode.mem_nodes ?_
  rw [foundAt, hnode.matchesAt_eq, if_pos ⟨hcalled.named, hcalled.kind⟩, List.flatMap_singleton]
  refine ofMatch_source rfl rfl hnode.spells ?_
  show (!requiringNames.contains (String.ofList called.spelling)) = false
  rw [hcalled.spelling_eq]
  rfl

/-- A call of anything else imports nothing. -/
theorem makes_of_other (hcalled : called.spelling ≠ "require".toList) :
    Makes scriptQuery node [] := by
  have hfound : foundAt scriptQuery node = [] := by
    rw [foundAt, hnode.matchesAt_eq]
    split
    · rw [List.flatMap_singleton, ofMatch_of_other rfl hcalled]
    · rfl
  refine { records := ?records, ordered := ?ordered, inside := ?inside }
  case records => rw [hfound, List.map_nil]
  case ordered =>
    rw [hfound]
    exact List.Pairwise.nil
  case inside =>
    rw [hfound]
    exact List.forall_mem_nil _

end Calls

end ImportRank.Extraction
