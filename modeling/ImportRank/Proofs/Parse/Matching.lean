import ImportRank.Parse.Query
import ImportRank.Proofs.Text.Encoded

/-!
# Matches by the nodes they start at

A query only matches at nodes of the kinds that its patterns ask for, and those are few in a tree.
So all matches in a tree are those at its asked nodes, one node after another; and what a pattern
with a single part matches at a node is what the part matches among the children. Main statement:
`matchesIn_eq`.
-/

namespace ImportRank.Parse

variable {query : List Pattern} {node : SyntaxNode}

/-! ## Nodes -/

namespace SyntaxNode

lemma nodesAmong_eq (nodes : List SyntaxNode) :
    nodesAmong nodes = nodes.flatMap SyntaxNode.nodes := by
  induction nodes with
  | nil => rfl
  | cons node nodes ih => rw [nodesAmong, ih, List.flatMap_cons]

lemma nodes_eq (node : SyntaxNode) :
    node.nodes = node :: node.children.flatMap SyntaxNode.nodes := by
  cases node
  rw [nodes, nodesAmong_eq]

/-- A node stands for a rule of the grammar. -/
structure IsRule (node : SyntaxNode) (kind : String) : Prop where
  named : node.named = true
  kind : node.kind = kind

/-- A node stands for a rule and covers some text. -/
structure Spells (node : SyntaxNode) (kind : String) (text : List Char) : Prop
    extends node.IsRule kind where
  text : node.text = Text.encode text

lemma Spells.spelling_eq {kind : String} {text : List Char} (hnode : node.Spells kind text) :
    node.spelling = text := by
  rw [spelling, hnode.text, Text.decodeLenient_encode]

/-- A node for a rule that covers some text. The nodes below it need not cover all of it. -/
def covering (kind : String) (start : ℕ) (text : String) (children : List SyntaxNode) :
    SyntaxNode :=
  { kind, named := true, field := none, start, text := Text.encode text.toList, children }

/-- One node stands before another: all that it holds starts before anything in the other. -/
def Before (earlier later : SyntaxNode) : Prop :=
  ∀ a ∈ earlier.nodes, ∀ b ∈ later.nodes, a.start < b.start

instance : DecidableRel Before := fun earlier later =>
  inferInstanceAs (Decidable (∀ a ∈ earlier.nodes, ∀ b ∈ later.nodes, a.start < b.start))

lemma mem_nodes_self (node : SyntaxNode) : node ∈ node.nodes := by
  rw [nodes_eq]
  exact List.mem_cons_self

end SyntaxNode

/-! ## Asked nodes -/

/-- Whether a query has a pattern for nodes like this one. -/
def isAsked (query : List Pattern) (node : SyntaxNode) : Bool :=
  node.named && query.any fun pattern => pattern.kind == node.kind

/-- The nodes of a tree that a query has a pattern for, in the order of the source. -/
def Tree.asked (tree : Tree) (query : List Pattern) : List SyntaxNode :=
  tree.root.nodes.filter (isAsked query)

lemma Pattern.matchesAt_eq (pattern : Pattern) (node : SyntaxNode) :
    pattern.matchesAt node =
      if node.named ∧ node.kind = pattern.kind ∧
          (pattern.field = none ∨ node.field = pattern.field) then
        (partsMatchAmong pattern.parts node.children).map
          ((pattern.capture.map fun name => (name, node)).toList ++ ·)
      else [] := by
  cases pattern
  rw [matchesAt]

lemma matchesAt_of_not_isAsked (hnode : isAsked query node = false) :
    matchesAt query node = [] := by
  refine List.flatMap_eq_nil_iff.mpr fun pattern hpattern => ?_
  rw [pattern.matchesAt_eq, if_neg]
  rintro ⟨hnamed, hkind, -⟩
  rw [isAsked, hnamed, Bool.true_and, List.any_eq_false] at hnode
  exact hnode pattern hpattern (beq_iff_eq.mpr hkind.symm)

/-- Nodes at which nothing comes of a function need not be looked at. -/
lemma flatMap_filter {α : Type} {p : SyntaxNode → Bool} {f : SyntaxNode → List α}
    {nodes : List SyntaxNode} (hf : ∀ node ∈ nodes, p node = false → f node = []) :
    (nodes.filter p).flatMap f = nodes.flatMap f := by
  induction nodes with
  | nil => rfl
  | cons node nodes ih =>
    obtain ⟨hnode, hnodes⟩ := List.forall_mem_cons.mp hf
    rw [List.filter_cons, List.flatMap_cons, ← ih hnodes]
    cases hp : p node with
    | true => rfl
    | false => rw [hnode hp, if_neg Bool.false_ne_true, List.nil_append]

theorem matchesIn_eq (query : List Pattern) (tree : Tree) :
    matchesIn query tree.root = (tree.asked query).flatMap (matchesAt query) :=
  (flatMap_filter fun _ _ => matchesAt_of_not_isAsked).symm

/-- A tree shows some things: nothing in it is an error, and the nodes that a query asks for are
those of the things, one for each, each before the next. -/
structure Tree.Shows {α : Type} (tree : Tree) (query : List Pattern)
    (isNode : α → SyntaxNode → Prop) (things : List α) : Prop where
  clean : tree.hasError = false
  nodes : List.Forall₂ isNode things (tree.asked query)
  apart : (tree.asked query).Pairwise SyntaxNode.Before

/-! ## Patterns with one part -/

/-- Without a dot before it a part may match any of the children. -/
lemma map_fst_choices (children : List SyntaxNode) :
    (choices false children).map Prod.fst = children := by
  induction children with
  | nil => rfl
  | cons child children ih =>
    rw [choices, Bool.false_and, if_neg Bool.false_ne_true, List.map_cons, ih]

lemma partsMatchAmong_singleton {part : Pattern} (hpart : part.next = false)
    (children : List SyntaxNode) :
    partsMatchAmong [part] children = children.flatMap part.matchesAt := by
  rw [partsMatchAmong, hpart]
  conv_rhs => rw [← map_fst_choices children, List.flatMap_map]
  refine List.flatMap_congr fun choice _ => ?_
  simp [partsMatchAmong]

/-- A part that asks for a field only matches the children in it. -/
lemma partsMatchAmong_field {part : Pattern} {field : String} (hpart : part.next = false)
    (hfield : part.field = some field) (node : SyntaxNode) :
    partsMatchAmong [part] node.children = (node.childrenIn field).flatMap part.matchesAt := by
  have hother : ∀ child ∈ node.children, decide (child.field = some field) = false →
      part.matchesAt child = [] := by
    intro child _ hchild
    rw [part.matchesAt_eq, if_neg]
    rintro ⟨-, -, hnone | hin⟩
    · rw [hfield] at hnone
      cases hnone
    · exact of_decide_eq_false hchild (hin.trans hfield)
  rw [partsMatchAmong_singleton hpart, SyntaxNode.childrenIn, flatMap_filter hother]

end ImportRank.Parse
