import ImportRank.Proofs.Import.Indented.Printed
import ImportRank.Proofs.Text.Spacing
import Mathlib.Data.List.TakeDrop

/-!
# Printed statements as tokens

A printed statement is cut into the tokens that it was put together from. A text is cut from the
left, so the lemmas say what one piece more in front of a text adds to the tokens of that text: a
word if the text goes on with something else than a word, a sign, the end of a line. Main statement:
`cuts_statements`.
-/

namespace ImportRank.Indented

variable {brackets : ℕ} {fresh : Bool} {blanks word text piece rest : List Char}
  {tokens : List Token} {kind : Kind} {c : Char}

/-! ## Starts of tokens -/

/-- A character that starts a token: it is no blank and no line end, and hides neither. -/
structure StartsToken (c : Char) : Prop where
  notLineEnd : c ≠ '\n'
  notContinued : c ≠ '\\'
  notComment : c ≠ '#'
  notBlank : Text.isSpacing c = false

lemma isSpacing_of_isWordChar (hc : isWordChar c = true) : Text.isSpacing c = false := by
  simp only [isWordChar, Bool.or_eq_true, Bool.and_eq_true, Bool.not_eq_true'] at hc
  rcases hc with (halphanum | hunderscore) | ⟨_, hspacing⟩
  · exact Text.isSpacing_of_isAlphanum halphanum
  · rw [beq_iff_eq.mp hunderscore]
    decide
  · exact hspacing

lemma startsToken_of_isWordChar (hc : isWordChar c = true) : StartsToken c where
  notLineEnd := by rintro rfl; exact absurd hc (by decide)
  notContinued := by rintro rfl; exact absurd hc (by decide)
  notComment := by rintro rfl; exact absurd hc (by decide)
  notBlank := isSpacing_of_isWordChar hc

lemma gap_of_startsToken (hc : StartsToken c) (bracketed : Bool) :
    gap bracketed false (c :: rest) = ([], c :: rest) := by
  rw [gap.eq_5 bracketed c rest hc.notLineEnd (fun _ h _ => hc.notContinued h)
    (fun _ h _ => hc.notContinued h), if_neg]
  simp [hc.notComment, hc.notBlank]

lemma gap_blanks (hblanks : ∀ d ∈ blanks, d = ' ') (hc : StartsToken c) (bracketed : Bool) :
    gap bracketed false (blanks ++ c :: rest) = (blanks, c :: rest) := by
  induction blanks with
  | nil => exact gap_of_startsToken hc bracketed
  | cons d blanks ih =>
    obtain ⟨rfl, hrest⟩ := List.forall_mem_cons.mp hblanks
    rw [List.cons_append, gap.eq_5 _ _ _ (by decide) (by simp) (by simp),
      if_pos (Or.inr (by decide))]
    simp only [show (' ' == '#') = false from rfl, ih hrest]

/-! ## One token -/

lemma noBlank : ∀ d ∈ ([] : List Char), d = ' ' := List.forall_mem_nil _

lemma oneBlank : ∀ d ∈ [' '], d = ' ' := List.forall_mem_singleton.mpr rfl

/-- A text is cut into some tokens, as long as their number is not limited. -/
def Cuts (brackets : ℕ) (fresh : Bool) (text : List Char) (tokens : List Token) : Prop :=
  ∀ count, text.length < count → tokensFrom count brackets fresh text = tokens

lemma cuts_nil : Cuts brackets true [] [] := by
  intro count hcount
  obtain ⟨count, rfl⟩ := Nat.exists_eq_succ_of_ne_zero (by omega : count ≠ 0)
  rfl

/-- A token, with blanks before it or without, in front of a text. -/
lemma cuts_token (hblanks : ∀ d ∈ blanks, d = ' ') (hc : StartsToken c)
    (hcut : cut (c :: text) = (kind, piece, rest)) (hrest : rest.length ≤ text.length)
    (htokens : Cuts (bracketsAfter brackets kind piece) false rest tokens) :
    Cuts brackets fresh (blanks ++ c :: text) (⟨kind, blanks, piece⟩ :: tokens) := by
  intro count hcount
  obtain ⟨count, rfl⟩ := Nat.exists_eq_succ_of_ne_zero (by omega : count ≠ 0)
  rw [List.length_append, List.length_cons] at hcount
  rw [tokensFrom, gap_blanks hblanks hc]
  dsimp only
  split
  case h_1 heq => exact absurd heq (by simp)
  case h_2 heq => exact absurd (List.cons.inj heq).1 hc.notLineEnd
  case h_3 => rw [hcut, htokens count (by omega)]

lemma indentation_of_startsToken (hrest : ∀ c ∈ rest.head?, StartsToken c) :
    indentation 0 false rest = (0, [], rest) := by
  cases rest with
  | nil => rfl
  | cons c rest =>
    obtain ⟨hlineEnd, hcontinued, hcomment, hblank⟩ := hrest c rfl
    have hother : ∀ d, Text.isSpacing d = true → c ≠ d := by
      rintro d hd rfl
      rw [hd] at hblank
      cases hblank
    exact indentation.eq_10 0 c rest hlineEnd (hother ' ' (by decide)) (hother '\t' (by decide))
      (hother '\r' (by decide)) (hother '\x0c' (by decide)) hcomment (fun _ h _ => hcontinued h)
      (fun _ h _ => hcontinued h)

/-- The end of a line, if the next line is not indented. -/
lemma cuts_lineEnd (hrest : ∀ c ∈ rest.head?, StartsToken c) (htokens : Cuts 0 true rest tokens) :
    Cuts 0 false ('\n' :: rest) (⟨.line 0, [], ['\n']⟩ :: tokens) := by
  intro count hcount
  obtain ⟨count, rfl⟩ := Nat.exists_eq_succ_of_ne_zero (by omega : count ≠ 0)
  show (⟨.line (indentation 0 false rest).1, [], '\n' :: (indentation 0 false rest).2.1⟩ : Token) ::
    tokensFrom count 0 true (indentation 0 false rest).2.2 = _
  rw [indentation_of_startsToken hrest]
  dsimp only
  rw [htokens count (by simpa using hcount)]

/-! ## Words and signs -/

/-- A text before which a word ends: it goes on neither with the word nor with a string. -/
def EndsWord (rest : List Char) : Prop :=
  ∀ c ∈ rest.head?, isWordChar c = false ∧ c ≠ '\'' ∧ c ≠ '"'

lemma cut_word (hword : Text.IsWord isWordChar word) (hrest : EndsWord rest) :
    cut (word ++ rest) = (.word, word, rest) := by
  obtain ⟨c, front, rfl⟩ := List.exists_cons_of_ne_nil hword.nonempty
  have hc : isWordChar c = true := hword.wordChars c List.mem_cons_self
  have hspan : (c :: front ++ rest).span isWordChar = (c :: front, rest) := by
    rw [List.span_eq_takeWhile_dropWhile, List.takeWhile_append_of_pos hword.wordChars,
      List.dropWhile_append_of_pos hword.wordChars]
    cases rest with
    | nil => simp
    | cons d rest => simp [(hrest d rfl).1]
  have hpoint : (c == '.') = false := by
    rw [beq_eq_false_iff_ne]
    rintro rfl
    exact absurd hc (by decide)
  rw [List.cons_append] at hspan ⊢
  rw [cut, hspan]
  dsimp only
  rw [hword.noNumber c rfl, hpoint, Bool.false_and, Bool.false_or, if_neg Bool.false_ne_true]
  cases rest with
  | nil => rfl
  | cons d rest =>
    have hquote := (hrest d rfl).2
    dsimp only
    rw [if_neg fun h => h.1.elim hquote.1 hquote.2]
    rfl

lemma cuts_word (hblanks : ∀ d ∈ blanks, d = ' ') (hword : Text.IsWord isWordChar word)
    (hrest : EndsWord rest) (htokens : Cuts brackets false rest tokens) :
    Cuts brackets fresh (blanks ++ (word ++ rest)) (⟨.word, blanks, word⟩ :: tokens) := by
  have hcut := cut_word hword hrest
  obtain ⟨c, front, rfl⟩ := List.exists_cons_of_ne_nil hword.nonempty
  exact cuts_token hblanks (startsToken_of_isWordChar (hword.wordChars c List.mem_cons_self)) hcut
    (by simp [List.length_append]) htokens

/-- The signs that are whole whatever follows them. -/
lemma cuts_sign (hblanks : ∀ d ∈ blanks, d = ' ') (hc : c ∈ ['(', ')', ','])
    (htokens : Cuts (bracketsAfter brackets .sign [c]) false rest tokens) :
    Cuts brackets fresh (blanks ++ c :: rest) (⟨.sign, blanks, [c]⟩ :: tokens) := by
  simp only [List.mem_cons, List.not_mem_nil, or_false] at hc
  obtain rfl | rfl | rfl := hc <;>
    exact cuts_token hblanks (by constructor <;> decide) rfl (Nat.le_refl _) htokens

/-- A point before a digit would be part of a number. -/
lemma cuts_point (hblanks : ∀ d ∈ blanks, d = ' ') (hrest : ∀ d ∈ rest.head?, d.isDigit = false)
    (htokens : Cuts brackets false rest tokens) :
    Cuts brackets fresh (blanks ++ '.' :: rest) (⟨.sign, blanks, ['.']⟩ :: tokens) := by
  refine cuts_token hblanks (by constructor <;> decide) ?_ (Nat.le_refl _) htokens
  cases rest with
  | nil => rfl
  | cons d rest =>
    rw [cut, List.head?_cons, Option.map_some, hrest d rfl]
    rfl

lemma cuts_star (hblanks : ∀ d ∈ blanks, d = ' ')
    (htokens : Cuts brackets false ('\n' :: rest) tokens) :
    Cuts brackets fresh (blanks ++ '*' :: '\n' :: rest) (⟨.sign, blanks, ['*']⟩ :: tokens) :=
  cuts_token hblanks (by constructor <;> decide) rfl (Nat.le_refl _) htokens

/-! ## Names and lists -/

lemma endsWord_cons (hc : c ∈ [' ', '\n', '(', ')', ',', '.', '*']) : EndsWord (c :: rest) := by
  rintro d ⟨⟩
  simp only [List.mem_cons, List.not_mem_nil, or_false] at hc
  obtain rfl | rfl | rfl | rfl | rfl | rfl | rfl := hc <;> decide

/-- If each thing is cut into its tokens wherever it ends, so are things in a row. -/
lemma cuts_several {α : Type} {print : α → List Char} {cut : List Char → α → List Token}
    {between : List Char} {several : Several α}
    (hthing : ∀ thing fresh blanks rest tokens, (∀ d ∈ blanks, d = ' ') → EndsWord rest →
      Cuts brackets false rest tokens →
      Cuts brackets fresh (blanks ++ (print thing ++ rest)) (cut blanks thing ++ tokens))
    (hsign : ∀ thing rest tokens, Cuts brackets false (between ++ (print thing ++ rest)) tokens →
      Cuts brackets false (c :: (between ++ (print thing ++ rest))) (mark c :: tokens))
    (hc : c ∈ [' ', '\n', '(', ')', ',', '.', '*']) (hbetween : ∀ d ∈ between, d = ' ')
    (hblanks : ∀ d ∈ blanks, d = ' ') (hrest : EndsWord rest)
    (htokens : Cuts brackets false rest tokens) :
    Cuts brackets fresh (blanks ++ (several.text print (c :: between) ++ rest))
      (several.tokens cut c between blanks ++ tokens) := by
  obtain ⟨first, more⟩ := several
  have hmore : EndsWord ((more.flatMap fun thing => c :: between ++ print thing) ++ rest) ∧
      Cuts brackets false ((more.flatMap fun thing => c :: between ++ print thing) ++ rest)
        ((more.flatMap fun thing => mark c :: cut between thing) ++ tokens) := by
    induction more with
    | nil => exact ⟨hrest, htokens⟩
    | cons thing more ih =>
      simp only [List.flatMap_cons, List.cons_append, List.append_assoc] at ih ⊢
      exact ⟨endsWord_cons hc, hsign _ _ _ (hthing _ _ _ _ _ hbetween ih.1 ih.2)⟩
  simp only [Several.text, Several.tokens, List.append_assoc]
  exact hthing _ _ _ _ _ hblanks hmore.1 hmore.2

lemma cuts_dotted (dotted : Dotted) (hblanks : ∀ d ∈ blanks, d = ' ') (hrest : EndsWord rest)
    (htokens : Cuts brackets false rest tokens) :
    Cuts brackets fresh (blanks ++ (dotted.text ++ rest)) (dotted.tokens blanks ++ tokens) := by
  refine cuts_several ?_ ?_ (by decide) noBlank hblanks hrest htokens
  · intro name fresh blanks rest tokens hblanks hrest htokens
    exact cuts_word hblanks name.isWord hrest htokens
  · intro name rest tokens htokens
    refine cuts_point noBlank ?_ htokens
    rw [List.nil_append, List.head?_append_of_ne_nil _ name.isWord.nonempty]
    exact name.isWord.noNumber

lemma cuts_item (item : Item Dotted) (hblanks : ∀ d ∈ blanks, d = ' ') (hrest : EndsWord rest)
    (htokens : Cuts brackets false rest tokens) :
    Cuts brackets fresh (blanks ++ (item.text ++ rest)) (item.tokens blanks ++ tokens) := by
  obtain ⟨dotted, other⟩ := item
  simp only [Item.text, Item.tokens, List.append_assoc]
  cases other with
  | none => exact cuts_dotted dotted hblanks hrest htokens
  | some other =>
    have has : Text.IsWord isWordChar "as".toList := by decide
    simp only [Item.otherText, List.cons_append, List.append_assoc]
    exact cuts_dotted dotted hblanks (endsWord_cons (by decide))
      (cuts_word oneBlank has (endsWord_cons (by decide))
        (cuts_word oneBlank other.isWord hrest htokens))

lemma cuts_items (items : Several (Item Dotted)) (hblanks : ∀ d ∈ blanks, d = ' ')
    (hrest : EndsWord rest) (htokens : Cuts brackets false rest tokens) :
    Cuts brackets fresh (blanks ++ (itemsText items ++ rest))
      (itemsTokens blanks items ++ tokens) := by
  refine cuts_several ?_ ?_ (by decide) oneBlank hblanks hrest htokens
  · intro item fresh blanks rest tokens hblanks hrest htokens
    exact cuts_item item hblanks hrest htokens
  · intro item rest tokens htokens
    exact cuts_sign noBlank (by decide) htokens

/-! ## Statements -/

lemma startsWord_dotted (dotted : Dotted) :
    ∀ c ∈ (dotted.text ++ rest).head?, c.isDigit = false := by
  obtain ⟨first, more⟩ := dotted
  simp only [Dotted.text, Several.text, List.append_assoc]
  rw [List.head?_append_of_ne_nil _ first.isWord.nonempty]
  exact first.isWord.noNumber

lemma cuts_module (module : Option Dotted) (hrest : EndsWord rest)
    (htokens : Cuts brackets false rest tokens) :
    Cuts brackets false ((module.map Dotted.text).getD [] ++ rest)
      ((module.map (Dotted.tokens [])).getD [] ++ tokens) := by
  cases module with
  | none => exact htokens
  | some dotted => exact cuts_dotted dotted noBlank hrest htokens

lemma noNumber_points (level : ℕ) (hrest : ∀ c ∈ rest.head?, c.isDigit = false) :
    ∀ c ∈ (List.replicate level '.' ++ rest).head?, c.isDigit = false := by
  cases level with
  | zero => exact hrest
  | succ level => rintro d ⟨⟩; decide

/-- Each of several points is a sign of its own: no digit follows. -/
lemma cuts_points (level : ℕ) (hrest : ∀ c ∈ rest.head?, c.isDigit = false)
    (htokens : Cuts brackets false rest tokens) :
    Cuts brackets false (List.replicate level '.' ++ rest)
      (List.replicate level (mark '.') ++ tokens) := by
  induction level with
  | zero => exact htokens
  | succ level ih => exact cuts_point noBlank (noNumber_points level hrest) ih

lemma cuts_origin (origin : Origin) (hrest : EndsWord rest)
    (hnumber : ∀ c ∈ rest.head?, c.isDigit = false) (htokens : Cuts brackets false rest tokens) :
    Cuts brackets false (' ' :: (origin.text ++ rest)) (origin.tokens [' '] ++ tokens) := by
  obtain ⟨level, module, hpresent, hfeature⟩ := origin
  cases level with
  | zero =>
    obtain ⟨dotted, rfl⟩ := Option.ne_none_iff_exists'.mp (hpresent rfl)
    exact cuts_dotted dotted oneBlank hrest htokens
  | succ level =>
    have hmodule := cuts_module module hrest htokens
    have hstart : ∀ c ∈ ((module.map Dotted.text).getD [] ++ rest).head?, c.isDigit = false := by
      cases module with
      | none => exact hnumber
      | some dotted => exact startsWord_dotted dotted
    have hpoints := cuts_points level hstart hmodule
    simp only [Origin.text, Origin.moduleText, Origin.tokens, List.replicate_succ, List.cons_append,
      List.append_assoc]
    exact cuts_point oneBlank (noNumber_points level hstart) hpoints

/-- Members, and the end of their line. In brackets the line would not end, but they are closed. -/
lemma cuts_members (wanted : Members) (hrest : ∀ c ∈ rest.head?, StartsToken c)
    (htokens : Cuts 0 true rest tokens) :
    Cuts 0 false (' ' :: (wanted.text ++ '\n' :: rest)) (wanted.tokens ++ endOfLine :: tokens) := by
  have hline := cuts_lineEnd hrest htokens
  cases wanted with
  | all => exact cuts_star oneBlank hline
  | named items =>
    exact cuts_items (items.map Item.dotted) oneBlank (endsWord_cons (by decide)) hline
  | bracketed items =>
    have hclose : Cuts 1 false (')' :: '\n' :: rest) (mark ')' :: endOfLine :: tokens) :=
      cuts_sign noBlank (by decide) hline
    simp only [Members.text, Members.tokens, List.cons_append, List.append_assoc]
    exact cuts_sign oneBlank (by decide)
      (cuts_items (items.map Item.dotted) noBlank (endsWord_cons (by decide)) hclose)

/-- A statement on a line of its own. -/
lemma cuts_statement (statement : Statement) (hrest : ∀ c ∈ rest.head?, StartsToken c)
    (htokens : Cuts 0 true rest tokens) :
    Cuts 0 true (statement.text ++ rest) (statement.tokens ++ tokens) := by
  have himport : Text.IsWord isWordChar "import".toList := by decide
  have hfrom : Text.IsWord isWordChar "from".toList := by decide
  cases statement with
  | modules items =>
    rw [Statement.text_modules, Statement.tokens]
    generalize "import".toList = word at himport ⊢
    simp only [List.cons_append, List.append_assoc]
    exact cuts_word noBlank himport (endsWord_cons (by decide))
      (cuts_items items oneBlank (endsWord_cons (by decide)) (cuts_lineEnd hrest htokens))
  | members origin wanted =>
    have hwanted := cuts_members wanted hrest htokens
    have horigin := cuts_origin origin (endsWord_cons (by decide)) (by rintro d ⟨⟩; decide)
      (cuts_word oneBlank himport (endsWord_cons (by decide)) hwanted)
    rw [Statement.text_members, Statement.tokens]
    generalize "import".toList = word, "from".toList = start at hfrom horigin ⊢
    simp only [List.cons_append, List.append_assoc]
    exact cuts_word noBlank hfrom (endsWord_cons (by decide)) horigin

lemma startsToken_statement (statement : Statement) :
    ∀ c ∈ (statement.text ++ rest).head?, StartsToken c := by
  cases statement <;> rintro c ⟨⟩ <;> exact startsToken_of_isWordChar (by decide)

/-- A printed source is cut into the tokens of its statements. -/
theorem cuts_statements (statements : List Statement) :
    Cuts 0 true (statements.flatMap Statement.text) (statements.flatMap Statement.tokens) := by
  induction statements with
  | nil => exact cuts_nil
  | cons statement statements ih =>
    rw [List.flatMap_cons, List.flatMap_cons]
    refine cuts_statement statement ?_ ih
    cases statements with
    | nil => rintro c ⟨⟩
    | cons next statements =>
      rw [List.flatMap_cons]
      exact startsToken_statement next

end ImportRank.Indented
