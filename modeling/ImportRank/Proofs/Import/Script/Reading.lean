import ImportRank.Proofs.Import.Recognition
import ImportRank.Proofs.Import.Script.Statements
import ImportRank.Proofs.Import.Script.Trees

/-!
# Printed scripts, recognized

The grammar of this library reads what was printed: whatever statements of the printed forms a
script consists of, it is recognized as a whole in each dialect, and its tree has the nodes of the
statements. So the files found are those that the statements name. Main statements:
`mentions_printed` and `recognizing_shows_printed`.
-/

namespace ImportRank.Script

open Parse (SyntaxNode Engine isAsked)

variable {text : List Char} {all : List Mention} {cursor : Cursor}

/-! ## Lines -/

/-- A printed script starts with a word, if with anything. -/
lemma isWordChar_printed (statements : List Statement) :
    ∀ c ∈ (statements.flatMap Statement.text).head?, isWordChar c = true := by
  cases statements with
  | nil => rintro c ⟨⟩
  | cons statement statements =>
    obtain ⟨c, more, htext, hc⟩ := statement.exists_text
    rw [List.flatMap_cons, htext]
    rintro d ⟨⟩
    exact hc

lemma startsLine_printed (statements : List Statement) :
    StartsLine (statements.flatMap Statement.text) := fun c hc =>
  startsToken_of_isWordChar (isWordChar_printed statements c hc)

lemma start_eq (htext : ∀ c ∈ text.head?, isWordChar c = true) :
    Cursor.start text = atLine text [] := by
  cases text with
  | nil => rfl
  | cons c rest =>
    have hc := htext c rfl
    have hskip : skip .open true false (c :: rest) = (true, false, c :: rest) :=
      skip_of_startsToken (startsToken_of_isWordChar hc) true false
    have hhash : c ≠ '#' := by
      rintro rfl
      exact absurd hc (by decide)
    unfold Cursor.start
    dsimp only
    split
    case h_1 heq => exact absurd (List.cons.inj heq).1 hhash
    case h_2 =>
      rw [hskip]
      rfl

/-! ## Scripts -/

/-- A cursor before some statements, when all of the script has some strings: those found so far and
those of the statements. -/
def Before (all : List Mention) (statements : List Statement) (cursor : Cursor) : Prop :=
  ∃ found, cursor = atLine (statements.flatMap Statement.text) found ∧
    found.reverse ++ statements.map Statement.mention = all

/-- The step with which a script is read. -/
def scriptStep (dialect : Dialect) (depth : ℕ) (cursor : Cursor) : Option (Option Cursor) :=
  if cursor.rest.isEmpty || cursor.starts closeBrace || [].contains cursor.word then some none
  else (recognize dialect depth .statement cursor).map some

lemma scriptStep_done (dialect : Dialect) (depth : ℕ) (hbefore : Before all [] cursor) :
    scriptStep dialect depth cursor = some none := by
  obtain ⟨found, rfl, -⟩ := hbefore
  rfl

lemma scriptStep_next {statement : Statement} {statements : List Statement} (dialect : Dialect)
    (depth : ℕ) (hbefore : Before all (statement :: statements) cursor) :
    ∃ next, scriptStep dialect (depth + 6) cursor = some (some next) ∧
      Before all statements next := by
  obtain ⟨found, rfl, hall⟩ := hbefore
  obtain ⟨c, more, htext, hc⟩ := statement.exists_text
  refine ⟨_, ?_, statement.mention :: found, rfl, ?_⟩
  · have hbrace : ('}' == c) = false := by
      rw [beq_eq_false_iff_ne]
      rintro rfl
      exact absurd hc (by decide)
    have hcontinues :
        ((atLine ((statement :: statements).flatMap Statement.text) found).rest.isEmpty ||
          (atLine ((statement :: statements).flatMap Statement.text) found).starts closeBrace) =
        false := by
      rw [List.flatMap_cons, htext]
      show ('}' == c && _) = false
      rw [hbrace, Bool.false_and]
    rw [scriptStep, hcontinues, Bool.false_or, if_neg (by simp), List.flatMap_cons,
      recognize_statement depth statement (startsLine_printed statements)]
    rfl
  · rw [← hall, List.reverse_cons, List.append_assoc, List.singleton_append, List.map_cons]

/-- A script of statements is recognized as a whole. -/
lemma script_statements (dialect : Dialect) (depth : ℕ) (statements : List Statement) :
    ∃ last, script dialect (depth + 6) (atLine (statements.flatMap Statement.text) []) = some last ∧
      last.found.reverse = statements.map Statement.mention := by
  have hstart : Before (statements.map Statement.mention) statements
      (atLine (statements.flatMap Statement.text) []) := ⟨[], rfl, rfl⟩
  obtain ⟨last, hlast, found, rfl, hall⟩ := Recognizer.exists_steps
    (fun _ => scriptStep_done dialect (depth + 6)) (fun _ _ _ => scriptStep_next dialect depth)
    (Recognizer.length_le_flatMap Statement.text_ne_nil statements) hstart
  refine ⟨atLine [] found, ?_, (List.append_nil _).symm.trans hall⟩
  exact congrArg
    (Option.bind · fun cursor => if cursor.rest.isEmpty then some cursor else none) hlast

theorem mentions_printed (dialect : Dialect) (statements : List Statement) :
    mentions dialect (printed statements).toList = (statements.map Statement.mention, true) := by
  rw [printed, String.toList_ofList, mentions]
  generalize hcount : (statements.flatMap Statement.text).length = count
  obtain ⟨depth, hdepth⟩ : ∃ depth, depthFor count = depth + 6 :=
    ⟨depthFor count - 6, by unfold depthFor; omega⟩
  obtain ⟨last, hlast, hfound⟩ := script_statements dialect depth statements
  rw [start_eq (isWordChar_printed statements), hdepth, hlast, ← hfound]

/-! ## Trees -/

/-- The node that is made of a statement's string is the one that is asked for. -/
lemma isNode_mention (place : ℕ) (statement : Statement) :
    statement.IsNode (statement.mention.node place) := by
  cases statement with
  | importFile file | importDefault name file | importAll name file | importItems items file =>
    exact ⟨⟨rfl, rfl⟩, _, rfl, ⟨rfl, rfl⟩, rfl⟩
  | exportAll file | exportItems items file => exact ⟨⟨rfl, rfl⟩, _, rfl, ⟨rfl, rfl⟩, rfl⟩
  | require name file =>
    obtain ⟨arguments, source, hcall⟩ := calls_mention place "require".toList file.text
    exact ⟨_, arguments, source, hcall, ⟨rfl, rfl⟩, rfl⟩
  | call callee other argument =>
    obtain ⟨arguments, source, hcall⟩ := calls_mention place callee.text argument.text
    exact ⟨_, arguments, source, hcall, rfl⟩

lemma exists_dialect {language : Language} (hlanguage : language ≠ .python) :
    ∃ dialect, language.dialect? = some dialect := by
  cases language
  · exact absurd rfl hlanguage
  all_goals exact ⟨_, rfl⟩

/-- The tree of a printed script shows its statements, in every language of scripts. -/
theorem recognizing_shows_printed {language : Language} (hlanguage : language ≠ .python)
    (statements : List Statement) :
    (Engine.recognizing.parse language (printed statements).toUTF8.data.toList).Shows scriptQuery
      Statement.IsNode statements := by
  obtain ⟨dialect, hdialect⟩ := exists_dialect hlanguage
  have htree : Engine.recognizing.parse language (printed statements).toUTF8.data.toList =
      recognizedTree Mention.node (statements.map Statement.mention, true) := by
    rw [parse_recognizing hdialect, Text.decodeLenient_toUTF8, mentions_printed]
  rw [htree]
  refine ⟨rfl, ?_, ?_⟩
  · rw [asked_mentions]
    exact List.forall₂_iff_get.mpr ⟨by simp, by simp [isNode_mention]⟩
  · rw [asked_mentions]
    exact pairwise_mapIdx start_mention

theorem extract_printed {language : Language} (hlanguage : language ≠ .python)
    (statements : List Statement) :
    extract language (printed statements).toUTF8.data.toList =
      { imports := statements.flatMap Statement.imports, complete := true } := by
  obtain ⟨dialect, hdialect⟩ := exists_dialect hlanguage
  rw [extract_script_eq hdialect, Text.decodeLenient_toUTF8, mentions_printed, List.flatMap_map]
  congr 1
  -- Both are the imports that are made at the node of the statement.
  refine List.flatMap_congr fun statement _ => ?_
  rw [← (makes_mention 0 statement.mention).records, (isNode_mention 0 statement).makes.records]

end ImportRank.Script
