import ImportRank.Proofs.Import.Statements

/-!
# Imports of recognized sources

What the engine of this library makes of a source: the imports of the statements and strings that
its grammars recognize, in their order. Main statements: `extract_python_eq` and
`extract_script_eq`.
-/

namespace ImportRank

open Parse (SyntaxNode Tree Engine isAsked)

/-! ## Trees of what was recognized -/

namespace Parse.SyntaxNode

variable {kind field : String} {place : ℕ} {children : List SyntaxNode} {node : SyntaxNode}

@[simp] lemma nodes_branch :
    (branch kind place children).nodes =
      branch kind place children :: children.flatMap SyntaxNode.nodes := nodes_eq _

@[simp] lemma nodes_within :
    (node.within field).nodes = node.within field :: node.children.flatMap SyntaxNode.nodes :=
  nodes_eq _

/-- Where nothing below some nodes has a property, only they themselves may have it. -/
lemma filter_flatMap_nodes {p : SyntaxNode → Bool} {nodes : List SyntaxNode}
    (hbelow : ∀ node ∈ nodes, ∀ part ∈ node.children.flatMap SyntaxNode.nodes, p part = false) :
    (nodes.flatMap SyntaxNode.nodes).filter p = nodes.filter p := by
  induction nodes with
  | nil => rfl
  | cons node nodes ih =>
    obtain ⟨hnode, hnodes⟩ := List.forall_mem_cons.mp hbelow
    have hnone : (node.children.flatMap SyntaxNode.nodes).filter p = [] :=
      List.filter_eq_nil_iff.mpr fun part hpart => by simp [hnode part hpart]
    rw [List.flatMap_cons, List.filter_append, ih hnodes, nodes_eq, List.filter_cons, hnone,
      List.filter_cons]
    cases p node <;> rfl

end Parse.SyntaxNode

section Recognized

variable {α : Type} {query : List Parse.Pattern} {node : ℕ → α → SyntaxNode} {things : List α}
  {done : Bool}

/-- What was recognized is asked for, if it is, one after another. -/
lemma asked_recognizedTree (hroot : ∀ pattern ∈ query, pattern.kind ≠ "source")
    (hbelow : ∀ place thing, ∀ part ∈ (node place thing).children.flatMap SyntaxNode.nodes,
      isAsked query part = false) :
    (recognizedTree node (things, done)).asked query =
      (things.mapIdx node).filter (isAsked query) := by
  have hsource : isAsked query (.branch "source" 0 (things.mapIdx node)) = false := by
    rw [isAsked, Bool.and_eq_false_iff, List.any_eq_false]
    exact Or.inr fun pattern hpattern h => hroot pattern hpattern (beq_iff_eq.mp h)
  have hchildren : ∀ child ∈ things.mapIdx node, ∀ part ∈ child.children.flatMap SyntaxNode.nodes,
      isAsked query part = false := by
    intro child hchild
    obtain ⟨place, hplace, rfl⟩ := List.mem_mapIdx.mp hchild
    exact hbelow place _
  rw [Tree.asked, recognizedTree, SyntaxNode.nodes_branch, List.filter_cons, hsource,
    if_neg Bool.false_ne_true, SyntaxNode.filter_flatMap_nodes hchildren]

lemma pairwise_mapIdx (hstart : ∀ place thing, ∀ part ∈ (node place thing).nodes,
    part.start = place) : (things.mapIdx node).Pairwise SyntaxNode.Before := by
  rw [List.pairwise_iff_getElem]
  intro i j hi hj hij a ha b hb
  rw [List.getElem_mapIdx] at ha hb
  rwa [hstart i _ a ha, hstart j _ b hb]

lemma forall₂_mapIdx {r : α → SyntaxNode → Prop} (hr : ∀ place thing, r thing (node place thing)) :
    List.Forall₂ r things (things.mapIdx node) :=
  List.forall₂_iff_get.mpr ⟨by simp, by simp [hr]⟩

/-- What is read at the asked nodes is what everything recognized stands for, when the rest stands
for nothing. -/
lemma flatMap_asked {β : Type} {f : SyntaxNode → List β} {g : α → List β}
    (hread : ∀ place thing, f (node place thing) = g thing)
    (hother : ∀ place thing, isAsked query (node place thing) = false → g thing = []) :
    ((things.mapIdx node).filter (isAsked query)).flatMap f = things.flatMap g := by
  rw [Parse.flatMap_filter]
  · rw [List.flatMap_def, List.flatMap_def]
    exact congrArg List.flatten (List.ext_getElem (by simp) (by simp [hread]))
  · intro child hchild hasked
    obtain ⟨place, hplace, rfl⟩ := List.mem_mapIdx.mp hchild
    rw [hread, hother place _ hasked]

end Recognized

/-! ## Import statements -/

namespace Indented

/-- The imports that a statement stands for. -/
def Written.imports : Written → List Import
  | modules items => items.map fun item => Import.plain item.name
  | members level module items =>
    [{ specifier := module.getD "", level, names := items.map Clause.name }]
  | features _ => []

lemma below_item (place : ℕ) (item : Clause) :
    ∀ part ∈ ((item.node place).within "name").nodes,
      part.start = place ∧ isAsked dottedQuery part = false := by
  obtain ⟨name, other⟩ := item
  cases other with
  | none =>
    simp only [Clause.node, SyntaxNode.nodes_within, List.forall_mem_cons]
    exact ⟨⟨rfl, rfl⟩, List.forall_mem_nil _⟩
  | some other =>
    simp only [Clause.node, SyntaxNode.nodes_within, List.forall_mem_cons]
    refine ⟨⟨rfl, rfl⟩, ?_⟩
    simp only [SyntaxNode.branch, List.flatMap_cons, List.flatMap_nil, SyntaxNode.nodes_within]
    simp [SyntaxNode.leaf, SyntaxNode.within, isAsked, dottedQuery]

lemma below_items (place : ℕ) (items : List Clause) :
    ∀ part ∈ (itemNodes place items).flatMap SyntaxNode.nodes,
      part.start = place ∧ isAsked dottedQuery part = false := by
  intro part hpart
  obtain ⟨node, hnode, hpart⟩ := List.mem_flatMap.mp hpart
  obtain ⟨item, -, rfl⟩ := List.mem_map.mp hnode
  exact below_item place item part hpart

lemma below_origin (place level : ℕ) (module : Option String) :
    ∀ part ∈ ((originNode place level module).within "module_name").nodes,
      part.start = place ∧ isAsked dottedQuery part = false := by
  rcases level with _ | level <;> rcases module with _ | module <;>
    simp [originNode, SyntaxNode.branch, SyntaxNode.leaf, SyntaxNode.within, SyntaxNode.nodes_eq,
      isAsked, dottedQuery]

/-- Below a statement nothing is asked for. -/
lemma below_written (place : ℕ) (written : Written) :
    ∀ part ∈ (written.node place).children.flatMap SyntaxNode.nodes,
      part.start = place ∧ isAsked dottedQuery part = false := by
  cases written with
  | modules items => exact below_items place items
  | features items => exact below_items place items
  | members level module items =>
    simp only [Written.node, SyntaxNode.branch, List.flatMap_cons, List.forall_mem_append]
    exact ⟨below_origin place level module, below_items place items⟩

lemma spells_leaf (kind : String) (place : ℕ) (text : List Char) :
    (SyntaxNode.leaf kind place text).Spells kind text := ⟨⟨rfl, rfl⟩, rfl⟩

lemma spelling_unaliased (place : ℕ) (item : Clause) :
    (Extraction.unaliased ((item.node place).within "name")).spelling = item.name.toList := by
  obtain ⟨name, other⟩ := item
  cases other <;> exact (spells_leaf "dotted_name" place name.toList).spelling_eq

/-- The items of a statement stand in the field for names, and nothing else does. -/
lemma childrenIn_branch (place : ℕ) (kind : String) (before : List SyntaxNode) (items : List Clause)
    (hbefore : ∀ node ∈ before, node.field ≠ some "name") :
    (SyntaxNode.branch kind place (before ++ itemNodes place items)).childrenIn "name" =
      itemNodes place items := by
  have hother : before.filter (fun node => node.field = some "name") = [] :=
    List.filter_eq_nil_iff.mpr fun node hnode h => hbefore node hnode (of_decide_eq_true h)
  have hitems : (itemNodes place items).filter (fun node => node.field = some "name") =
      itemNodes place items := by
    refine List.filter_eq_self.mpr fun node hnode => ?_
    obtain ⟨item, -, rfl⟩ := List.mem_map.mp hnode
    rfl
  rw [SyntaxNode.childrenIn, SyntaxNode.branch]
  dsimp only
  rw [List.filter_append, hother, hitems, List.nil_append]

lemma namesOf_eq_of_childrenIn {node : SyntaxNode} {place : ℕ} {items : List Clause}
    (hnode : node.childrenIn "name" = itemNodes place items) :
    Extraction.namesOf node = items.map Clause.name := by
  rw [Extraction.namesOf, hnode, itemNodes, List.map_map]
  refine List.map_congr_left fun item _ => ?_
  rw [Function.comp_apply, spelling_unaliased, String.ofList_toList]

lemma childrenIn_modules (place : ℕ) (items : List Clause) :
    ((Written.modules items).node place).childrenIn "name" = itemNodes place items :=
  childrenIn_branch place _ [] items (List.forall_mem_nil _)

lemma childrenIn_members (place level : ℕ) (module : Option String) (items : List Clause) :
    ((Written.members level module items).node place).childrenIn "name" = itemNodes place items :=
  childrenIn_branch place _ [_] items (by simp [SyntaxNode.within])

lemma originOf_node (place level : ℕ) (module : Option String) :
    Extraction.originOf ((originNode place level module).within "module_name") =
      (level, module.getD "") := by
  have hdots := spells_leaf "import_prefix" place (List.replicate level '.')
  rcases module with _ | name
  · cases level <;> exact Extraction.originOf_dots ⟨rfl, rfl⟩ hdots rfl
  have hname := spells_leaf "dotted_name" place name.toList
  rcases level with _ | level
  · exact (Extraction.originOf_name hname).trans (by rw [String.ofList_toList]; rfl)
  · exact (Extraction.originOf_dots_name ⟨rfl, rfl⟩ hdots hname rfl).trans
      (by rw [String.ofList_toList]; rfl)

/-- What a statement stands for is what its node is read as. -/
lemma ofStatement_node (place : ℕ) (written : Written) :
    Extraction.ofStatement (written.node place) = written.imports := by
  cases written with
  | modules items =>
    rw [Extraction.ofStatement_import ⟨rfl, rfl⟩,
      namesOf_eq_of_childrenIn (childrenIn_modules place items), List.map_map]
    rfl
  | members level module items =>
    rw [Extraction.ofStatement_from ⟨rfl, rfl⟩ rfl, originOf_node,
      namesOf_eq_of_childrenIn (childrenIn_members place level module items), Written.imports]
  | features items =>
    have hmodule : ((Written.features items).node place).childrenIn "module_name" = [] := by
      refine List.filter_eq_nil_iff.mpr fun node hnode => ?_
      obtain ⟨item, -, rfl⟩ := List.mem_map.mp hnode
      exact of_decide_eq_true rfl
    have hkind : ((Written.features items).node place).kind ≠ "import_statement" := by
      show "future_import_statement" ≠ "import_statement"
      decide
    rw [Extraction.ofStatement, if_neg hkind, SyntaxNode.childIn?, hmodule]
    rfl

lemma start_written (place : ℕ) (written : Written) :
    ∀ part ∈ (written.node place).nodes, part.start = place := by
  rw [SyntaxNode.nodes_eq]
  refine List.forall_mem_cons.mpr ⟨by cases written <;> rfl, fun part hpart => ?_⟩
  exact (below_written place written part hpart).1

lemma asked_written (read : List Written × Bool) :
    (recognizedTree Written.node read).asked dottedQuery =
      (read.1.mapIdx Written.node).filter (isAsked dottedQuery) :=
  asked_recognizedTree (by decide) fun place written part hpart =>
    (below_written place written part hpart).2

lemma apart_written (read : List Written × Bool) :
    ((recognizedTree Written.node read).asked dottedQuery).Pairwise SyntaxNode.Before := by
  rw [asked_written]
  exact (pairwise_mapIdx start_written).filter _

end Indented

open Indented in
/-- The imports of a source are those of the statements that are recognized in it. -/
theorem extract_python_eq (bytes : List UInt8) :
    extract .python bytes =
      { imports := (written (Text.decodeLenient bytes)).1.flatMap Written.imports
        complete := (written (Text.decodeLenient bytes)).2 } := by
  have hempty : written (Text.decodeLenient []) = ([], true) := by
    rw [Text.decodeLenient_nil]
    rfl
  have hother : ∀ place (thing : Written), isAsked dottedQuery (thing.node place) = false →
      thing.imports = [] := by
    rintro place (items | ⟨level, module, items⟩ | items) hasked
    · cases hasked
    · cases hasked
    · rfl
  generalize hread : written (Text.decodeLenient bytes) = read at *
  have htree : Engine.recognizing.parse .python bytes = recognizedTree Written.node read := by
    rw [← hread]
    rfl
  have hnothing : bytes = [] → (recognizedTree Written.node read).asked dottedQuery = [] ∧
      (recognizedTree Written.node read).hasError = false := by
    rintro rfl
    rw [hempty] at hread
    subst hread
    exact ⟨rfl, rfl⟩
  rw [extract, Extraction.extract_dotted htree (List.Perm.refl _) (apart_written read) hnothing,
    asked_written, flatMap_asked ofStatement_node hother, recognizedTree, Bool.not_not]

/-! ## Strings that name files -/

namespace Script

/-- The imports that a string stands for: the file that it names, unless it is the argument of
another call than that of `require`. -/
def Mention.imports : Mention → List Import
  | imported literal | exported literal => Extraction.namedBy literal
  | passed callee literal => if callee = "require".toList then Extraction.namedBy literal else []

lemma start_mention (place : ℕ) (mention : Mention) :
    ∀ part ∈ (mention.node place).nodes, part.start = place := by
  cases mention <;>
    simp [Mention.node, SyntaxNode.branch, SyntaxNode.leaf, SyntaxNode.sign, SyntaxNode.within,
      SyntaxNode.nodes_eq]

lemma below_mention (place : ℕ) (mention : Mention) :
    ∀ part ∈ (mention.node place).children.flatMap SyntaxNode.nodes,
      isAsked scriptQuery part = false := by
  cases mention <;>
    simp [Mention.node, SyntaxNode.branch, SyntaxNode.leaf, SyntaxNode.sign, SyntaxNode.within,
      SyntaxNode.nodes_eq, isAsked, scriptQuery, Pattern.call]

lemma calls_mention (place : ℕ) (callee literal : List Char) :
    ∃ arguments file, Extraction.Calls ((Mention.passed callee literal).node place) literal
      ((SyntaxNode.leaf "identifier" place callee).within "function") arguments file :=
  ⟨_, _, ⟨rfl, rfl⟩, rfl, rfl, ⟨rfl, rfl⟩, rfl, ⟨_, _, rfl, rfl⟩, ⟨rfl, rfl⟩, rfl⟩

/-- What a string stands for is made at its node. -/
lemma makes_mention (place : ℕ) (mention : Mention) :
    Extraction.Makes scriptQuery (mention.node place) mention.imports := by
  cases mention with
  | imported literal =>
    exact Extraction.Names.makes ⟨rfl, ⟨rfl, rfl⟩, rfl⟩ (Or.inl ⟨rfl, rfl⟩)
  | exported literal =>
    exact Extraction.Names.makes ⟨rfl, ⟨rfl, rfl⟩, rfl⟩ (Or.inr ⟨rfl, rfl⟩)
  | passed callee literal =>
    have hcallee : ((SyntaxNode.leaf "identifier" place callee).within "function").Spells
        "identifier" callee := ⟨⟨rfl, rfl⟩, rfl⟩
    obtain ⟨arguments, file, hcall⟩ := calls_mention place callee literal
    rw [Mention.imports]
    split
    · rename_i hrequire
      exact hcall.makes_of_require (hrequire ▸ hcallee)
    · rename_i hother
      exact hcall.makes_of_other (by rwa [hcallee.spelling_eq])

/-- Every string that was recognized is asked for. -/
lemma asked_mentions (read : List Mention × Bool) :
    (recognizedTree Mention.node read).asked scriptQuery = read.1.mapIdx Mention.node := by
  rw [asked_recognizedTree (by decide) below_mention]
  refine List.filter_eq_self.mpr fun node hnode => ?_
  obtain ⟨place, hplace, rfl⟩ := List.mem_mapIdx.mp hnode
  generalize read.1[place] = mention
  cases mention <;> rfl

lemma parse_recognizing {language : Language} {dialect : Dialect}
    (hdialect : language.dialect? = some dialect) (bytes : List UInt8) :
    Engine.recognizing.parse language bytes =
      recognizedTree Mention.node (mentions dialect (Text.decodeLenient bytes)) := by
  rw [Engine.recognizing]
  dsimp only
  rw [hdialect]

end Script

open Script in
/-- The imports of a script are those of the strings that are recognized in it. -/
theorem extract_script_eq {language : Language} {dialect : Dialect}
    (hdialect : language.dialect? = some dialect) (bytes : List UInt8) :
    extract language bytes =
      { imports := (mentions dialect (Text.decodeLenient bytes)).1.flatMap Mention.imports
        complete := (mentions dialect (Text.decodeLenient bytes)).2 } := by
  have hempty : mentions dialect (Text.decodeLenient []) = ([], true) := by
    rw [Text.decodeLenient_nil]
    rfl
  have hquery : importQuery language = scriptQuery :=
    Extraction.importQuery_of_ne (by rintro rfl; cases hdialect)
  have htree := parse_recognizing hdialect bytes
  generalize hread : mentions dialect (Text.decodeLenient bytes) = read at *
  have hnothing : bytes = [] →
      read.1 = [] ∧ (recognizedTree Mention.node read).hasError = false := by
    rintro rfl
    rw [hempty] at hread
    subst hread
    exact ⟨rfl, rfl⟩
  have hmakes : List.Forall₂
      (fun mention node => Extraction.Makes scriptQuery node (Mention.imports mention)) read.1
      (read.1.mapIdx Mention.node) := forall₂_mapIdx makes_mention
  have hapart : (read.1.mapIdx Mention.node).Pairwise SyntaxNode.Before :=
    pairwise_mapIdx start_mention
  rw [← asked_mentions read, ← hquery] at hmakes hapart
  rw [extract, Engine.extract_eq read.1 Mention.imports htree (List.Perm.refl _) hmakes hapart
    hnothing, recognizedTree, Bool.not_not]

end ImportRank
