import ImportRank.Import.Extraction
import ImportRank.Proofs.Parse.Matching
import Mathlib.Data.List.Forall2
import Mathlib.Data.List.Pairwise

/-!
# What is found in a tree

The matches of a query may come in any order, but what they make is sorted by where it stands. In a
tree where the asked nodes stand one before another, what is found at them is in order as soon as it
is so at each of them. Main statement: `extract_eq`.
-/

namespace ImportRank

open Parse (SyntaxNode Tree Engine matchesAt matchesIn)

namespace Extraction

variable {found sorted : List Finding} {a b : Finding}

/-! ## The order of findings -/

/-- Whether an import stands before another. -/
def Finding.Lt (a b : Finding) : Prop :=
  a.start < b.start ∨ a.start = b.start ∧ a.offset < b.offset

lemma Finding.le_iff :
    a.le b ↔ a.start < b.start ∨ a.start = b.start ∧ a.offset ≤ b.offset := by
  simp [Finding.le]

lemma Finding.Lt.le (hlt : a.Lt b) : a.le b :=
  Finding.le_iff.mpr (hlt.imp_right fun h => ⟨h.1, Nat.le_of_lt h.2⟩)

lemma Finding.Lt.not_le (hlt : a.Lt b) : ¬ b.le a := by
  rw [Finding.le_iff]
  rcases hlt with h | h <;> omega

/-- Findings at places of their own have only one order. -/
lemma mergeSort_eq_of_perm (hperm : found.Perm sorted) (hsorted : sorted.Pairwise Finding.Lt) :
    found.mergeSort Finding.le = sorted := by
  have htrans : ∀ a b c : Finding, a.le b → b.le c → a.le c := by
    intro a b c
    simp only [Finding.le_iff]
    omega
  have htotal : ∀ a b : Finding, a.le b || b.le a := by
    intro a b
    rw [Bool.or_eq_true, Finding.le_iff, Finding.le_iff]
    omega
  -- Two of them that stand no later than each other are the same, since others stand apart.
  have hsame : ∀ ⦃a⦄, a ∈ sorted → ∀ ⦃b⦄, b ∈ sorted → a.le b → b.le a → a = b :=
    List.Pairwise.forall_of_forall_of_flip (fun _ _ _ _ => rfl)
      (hsorted.imp fun hlt _ hle => absurd hle hlt.not_le)
      (hsorted.imp fun hlt hle _ => absurd hle hlt.not_le)
  have hpermuted := (List.mergeSort_perm found Finding.le).trans hperm
  exact hpermuted.eq_of_pairwise (fun a b ha hb => hsame (hpermuted.mem_iff.mp ha) hb)
    (List.pairwise_mergeSort htrans htotal found) (hsorted.imp Finding.Lt.le)

/-! ## What is found at a node -/

/-- What is found at a node: all that its matches make. -/
def foundAt (query : List Parse.Pattern) (node : SyntaxNode) : List Finding :=
  (matchesAt query node).flatMap ofMatch

/-- Some imports are made at a node: they are found in their order, each at a place of its own
within the node. -/
structure Makes (query : List Parse.Pattern) (node : SyntaxNode) (imports : List Import) :
    Prop where
  records : (foundAt query node).map Finding.record = imports
  ordered : (foundAt query node).Pairwise Finding.Lt
  inside : ∀ finding ∈ foundAt query node, ∃ part ∈ node.nodes, part.start = finding.start

variable {α : Type} {query : List Parse.Pattern} {imports : α → List Import}

lemma map_record_eq {things : List α} {nodes : List SyntaxNode}
    (hmakes : List.Forall₂ (fun thing node => Makes query node (imports thing)) things nodes) :
    (nodes.flatMap (foundAt query)).map Finding.record = things.flatMap imports := by
  induction hmakes with
  | nil => rfl
  | cons hfirst _ ih =>
    rw [List.flatMap_cons, List.map_append, hfirst.records, ih, List.flatMap_cons]

lemma pairwise_found {things : List α} {nodes : List SyntaxNode}
    (hmakes : List.Forall₂ (fun thing node => Makes query node (imports thing)) things nodes)
    (hapart : nodes.Pairwise SyntaxNode.Before) :
    (nodes.flatMap (foundAt query)).Pairwise Finding.Lt := by
  have hmade : ∀ node ∈ nodes, ∃ records, Makes query node records := by
    clear hapart
    induction hmakes with
    | nil => exact List.forall_mem_nil _
    | cons hfirst _ ih => exact List.forall_mem_cons.mpr ⟨⟨_, hfirst⟩, ih⟩
  rw [List.pairwise_flatMap]
  refine ⟨fun node hnode => (hmade node hnode).elim fun _ h => h.ordered, ?_⟩
  refine hapart.imp_of_mem fun {earlier later} hearlier hlater hbefore a ha b hb => ?_
  obtain ⟨_, hfirst⟩ := hmade earlier hearlier
  obtain ⟨_, hsecond⟩ := hmade later hlater
  obtain ⟨part, hpart, hstart⟩ := hfirst.inside a ha
  obtain ⟨part', hpart', hstart'⟩ := hsecond.inside b hb
  exact Or.inl (hstart ▸ hstart' ▸ hbefore part hpart part' hpart')

end Extraction

/-! ## What is found in a tree -/

/-- Imports are extracted in the order of the nodes that they are made at, whatever order an engine
finds its matches in. -/
theorem Parse.Engine.extract_eq {α : Type} (things : List α) (imports : α → List Import)
    {engine : Engine} {language : Language} {bytes : List UInt8} {tree : Tree}
    (htree : engine.parse language bytes = tree)
    (hfind : (engine.find (importQuery language) tree.root).Perm
      (matchesIn (importQuery language) tree.root))
    (hmakes : List.Forall₂
      (fun thing node => Extraction.Makes (importQuery language) node (imports thing)) things
      (tree.asked (importQuery language)))
    (hapart : (tree.asked (importQuery language)).Pairwise SyntaxNode.Before)
    (hempty : bytes = [] → things = [] ∧ tree.hasError = false) :
    engine.extract language bytes =
      { imports := things.flatMap imports, complete := !tree.hasError } := by
  rcases bytes with _ | ⟨byte, bytes⟩
  · obtain ⟨rfl, hclean⟩ := hempty rfl
    rw [hclean]
    rfl
  rw [matchesIn_eq] at hfind
  have hfound := hfind.flatMap_right Extraction.ofMatch
  rw [List.flatMap_assoc] at hfound
  have hsorted := Extraction.mergeSort_eq_of_perm hfound (Extraction.pairwise_found hmakes hapart)
  have hrecords := Extraction.map_record_eq hmakes
  rw [Engine.extract, List.isEmpty_cons, if_neg Bool.false_ne_true, htree]
  dsimp only
  rw [hsorted, ← hrecords]
  rfl

end ImportRank
