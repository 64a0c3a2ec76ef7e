import ImportRank.Proofs.Import.Script.Printed
import ImportRank.Proofs.Text.Spacing

/-!
# Reading what was printed

What the recognizers of single tokens do at a word, a sign or a string that was printed. After a
token the cursor stands before the next one, with a blank passed over or without, and knows of no
line end and no comment between them; only after the end of a line it knows of that.
-/

namespace ImportRank.Script

variable {word after text rest : List Char} {found : List Mention} {cursor : Cursor} {c : Char}

/-! ## Between tokens -/

/-- A character that starts a token, and no comment. -/
structure StartsToken (c : Char) : Prop where
  noComment : c ≠ '/'
  noBlank : Text.isSpacing c = false

lemma startsToken_of_isWordChar (hc : isWordChar c = true) : StartsToken c where
  noComment := by rintro rfl; exact absurd hc (by decide)
  noBlank := by
    simp only [isWordChar, Bool.or_eq_true, Bool.and_eq_true, Bool.not_eq_true'] at hc
    rcases hc with ((halphanum | hunderscore) | hdollar) | ⟨_, hspacing⟩
    · exact Text.isSpacing_of_isAlphanum halphanum
    · rw [beq_iff_eq.mp hunderscore]
      decide
    · rw [beq_iff_eq.mp hdollar]
      decide
    · exact hspacing

/-- A text leads to another if the next token in it is at the start of the other, with no line end
and no comment before it. -/
def Leads (after text : List Char) : Prop := skip .open false false after = (false, false, text)

/-- The cursor before a token within a line. -/
def here (text : List Char) (found : List Mention) : Cursor := ⟨text, false, false, found⟩

/-- The cursor at the start of a line. -/
def atLine (text : List Char) (found : List Mention) : Cursor := ⟨text, true, false, found⟩

lemma skip_cons (hc : c ≠ '/') (line comment : Bool) (rest : List Char) :
    skip .open line comment (c :: rest) =
      if Text.isSpacing c then skip .open (line || isLineEnd c) comment rest
      else (line, comment, c :: rest) := by
  rw [skip.eq_def]
  split
  case h_1 heq => exact absurd (List.cons.inj heq).1 hc
  case h_2 heq => exact absurd (List.cons.inj heq).1 hc
  case h_3 hline hcomment _ heq =>
    obtain ⟨rfl, rfl⟩ := List.cons.inj heq
    rfl
  all_goals contradiction

lemma skip_of_startsToken (hc : StartsToken c) (line comment : Bool) :
    skip .open line comment (c :: rest) = (line, comment, c :: rest) := by
  rw [skip_cons hc.noComment, hc.noBlank, if_neg Bool.false_ne_true]

lemma leads_of_startsToken (hc : StartsToken c) : Leads (c :: rest) (c :: rest) :=
  skip_of_startsToken hc false false

lemma leads_blank (hrest : Leads after text) : Leads (' ' :: after) text := by
  rw [Leads, skip_cons (by decide), if_pos (by decide)]
  exact hrest

lemma move_of_leads (hafter : Leads after text) : cursor.move after = here text cursor.found := by
  rw [Cursor.move, hafter]
  rfl

lemma move_lineEnd (hrest : ∀ c ∈ rest.head?, StartsToken c) :
    cursor.move ('\n' :: rest) = atLine rest cursor.found := by
  have hskip : skip .open false false ('\n' :: rest) = (true, false, rest) := by
    rw [skip_cons (by decide), if_pos (by decide)]
    cases rest with
    | nil => rfl
    | cons c rest => exact skip_of_startsToken (hrest c rfl) true false
  rw [Cursor.move, hskip]
  rfl

/-! ## Words -/

lemma exists_startsToken (hword : Text.IsWord isWordChar word) :
    ∃ c front, word = c :: front ∧ StartsToken c := by
  obtain ⟨c, front, rfl⟩ := List.exists_cons_of_ne_nil hword.nonempty
  exact ⟨c, front, rfl, startsToken_of_isWordChar (hword.wordChars c List.mem_cons_self)⟩

lemma leads_word (hword : Text.IsWord isWordChar word) :
    Leads (word ++ rest) (word ++ rest) := by
  obtain ⟨c, front, rfl, hc⟩ := exists_startsToken hword
  exact leads_of_startsToken hc

/-- A text before which a word ends. -/
def EndsWord (rest : List Char) : Prop := ∀ c ∈ rest.head?, isWordChar c = false ∧ c ≠ '\\'

lemma endsWord_cons (hc : c ∈ [' ', ',', '(']) : EndsWord (c :: rest) := by
  rintro d ⟨⟩
  simp only [List.mem_cons, List.not_mem_nil, or_false] at hc
  obtain rfl | rfl | rfl := hc <;> decide

lemma splitWord_of_endsWord (hrest : EndsWord rest) : splitWord rest = ([], rest) := by
  cases rest with
  | nil => rw [splitWord]
  | cons c rest =>
    obtain ⟨hword, hescape⟩ := hrest c rfl
    rw [splitWord.eq_2 _ _ fun _ h _ => hescape h, hword, if_neg Bool.false_ne_true]

lemma splitWord_append (hword : ∀ c ∈ word, isWordChar c = true) (hrest : EndsWord rest) :
    splitWord (word ++ rest) = (word, rest) := by
  induction word with
  | nil => exact splitWord_of_endsWord hrest
  | cons c word ih =>
    obtain ⟨hc, hword⟩ := List.forall_mem_cons.mp hword
    have hescape : c ≠ '\\' := by
      rintro rfl
      exact absurd hc (by decide)
    rw [List.cons_append, splitWord.eq_2 _ _ fun _ h _ => hescape h, hc, if_pos rfl, ih hword]

/-- A word stands at a cursor, with a text after it that does not go on with the word. -/
structure AtWord (cursor : Cursor) (word rest : List Char) : Prop where
  eq : cursor.rest = word ++ rest
  isWord : Text.IsWord isWordChar word
  ends : EndsWord rest

namespace AtWord

variable (hcursor : AtWord cursor word rest)

include hcursor

lemma exists_cons :
    ∃ c after, cursor.rest = c :: after ∧ isWordChar c = true ∧ c.isDigit = false := by
  obtain ⟨c, front, hword⟩ := List.exists_cons_of_ne_nil hcursor.isWord.nonempty
  refine ⟨c, front ++ rest, by rw [hcursor.eq, hword, List.cons_append], ?_, ?_⟩
  · exact hcursor.isWord.wordChars c (hword ▸ List.mem_cons_self)
  · exact hcursor.isWord.noNumber c (by rw [hword]; rfl)

lemma word_eq : cursor.word = String.ofList word := by
  obtain ⟨c, after, hrest, -, hdigit⟩ := hcursor.exists_cons
  have hnumber : cursor.startsWith Char.isDigit = false := by
    rw [Cursor.startsWith, hrest]
    exact hdigit
  rw [Cursor.word, hnumber, if_neg Bool.false_ne_true, hcursor.eq,
    splitWord_append hcursor.isWord.wordChars hcursor.ends]

lemma hasWord : cursor.hasWord = true := by
  obtain ⟨c, after, hrest, hc, hdigit⟩ := hcursor.exists_cons
  rw [Cursor.hasWord, hrest]
  split
  · rfl
  · rename_i heq
    obtain ⟨rfl, rfl⟩ := List.cons.inj heq
    rw [hc, hdigit]
    rfl
  · contradiction

lemma name_eq : name cursor = some (cursor.move rest) := by
  rw [name, hcursor.hasWord, if_pos rfl, hcursor.eq,
    splitWord_append hcursor.isWord.wordChars hcursor.ends]

lemma keyword_eq {text : String} (htext : word = text.toList) :
    keyword text cursor = some (cursor.move rest) := by
  rw [keyword, hcursor.word_eq, htext, String.ofList_toList, if_pos rfl, hcursor.name_eq]

/-- No sign stands where a word does. -/
lemma starts_eq {text : String} {c : Char} {more : List Char} (htext : text.toList = c :: more)
    (hc : isWordChar c = false) : cursor.starts text = false := by
  obtain ⟨d, after, hrest, hd, -⟩ := hcursor.exists_cons
  rw [Cursor.starts, hrest, htext, List.isPrefixOf, Bool.and_eq_false_iff]
  left
  rw [beq_eq_false_iff_ne]
  rintro rfl
  rw [hc] at hd
  cases hd

lemma hasString_eq : cursor.hasString = false := by
  obtain ⟨c, after, hrest, hc, -⟩ := hcursor.exists_cons
  have hquote : ∀ d, isWordChar d = false → (c == d) = false := by
    rintro d hd
    rw [beq_eq_false_iff_ne]
    rintro rfl
    rw [hd] at hc
    cases hc
  rw [Cursor.hasString, Cursor.startsWith, hrest]
  dsimp only
  rw [hquote '\'' (by decide), hquote '"' (by decide)]
  rfl

end AtWord

lemma name_here (hword : Text.IsWord isWordChar word) (hends : EndsWord rest)
    (hrest : Leads rest text) : name (here (word ++ rest) found) = some (here text found) := by
  rw [AtWord.name_eq ⟨rfl, hword, hends⟩, move_of_leads hrest]
  rfl

lemma keyword_here {sign : String} (hword : Text.IsWord isWordChar sign.toList)
    (hends : EndsWord rest) (hrest : Leads rest text) :
    keyword sign (here (sign.toList ++ rest) found) = some (here text found) := by
  rw [AtWord.keyword_eq ⟨rfl, hword, hends⟩ rfl, move_of_leads hrest]
  rfl

/-! ## Signs -/

/-- Where a sign stands, there is no word. -/
lemma word_of_sign (hcursor : cursor.rest = c :: rest) (hc : isWordChar c = false)
    (hescape : c ≠ '\\') : cursor.word = "" := by
  have hend : EndsWord (c :: rest) := by
    rintro d ⟨⟩
    exact ⟨hc, hescape⟩
  rw [Cursor.word, hcursor, splitWord_of_endsWord hend]
  split <;> rfl

lemma name_of_sign (hcursor : cursor.rest = c :: rest) (hc : isWordChar c = false)
    (hescape : c ≠ '\\') : name cursor = none := by
  have hword : cursor.hasWord = false := by
    rw [Cursor.hasWord, hcursor]
    split
    · rename_i heq
      exact absurd (List.cons.inj heq).1 hescape
    · rename_i heq
      obtain ⟨rfl, rfl⟩ := List.cons.inj heq
      rw [hc, Bool.false_and]
    · rfl
  rw [name, hword, if_neg Bool.false_ne_true]

lemma symbol_of_leads {sign : String} (hsign : sign.toList = [c])
    (hcursor : cursor.rest = c :: after) (hafter : Leads after text) :
    symbol sign cursor = some (here text cursor.found) := by
  have hlength : sign.length = 1 := by rw [← String.length_toList, hsign, List.length_singleton]
  have hstarts : cursor.starts sign = true := by
    rw [Cursor.starts, hcursor, hsign, List.isPrefixOf, beq_self_eq_true, Bool.true_and,
      List.isPrefixOf]
  rw [symbol, hstarts, if_pos rfl, hcursor, hlength, List.drop_one, List.tail_cons,
    move_of_leads hafter]

lemma symbol_here {sign : String} (hsign : sign.toList = [c]) (hafter : Leads after text) :
    symbol sign (here (c :: after) found) = some (here text found) :=
  symbol_of_leads hsign rfl hafter

/-! ## Strings -/

lemma Quote.mark_ne (quote : Quote) : isWordChar quote.mark = false ∧ quote.mark ≠ '\\' := by
  cases quote <;> decide

lemma leads_literal (literal : Literal) : Leads (literal.text ++ rest) (literal.text ++ rest) := by
  refine leads_of_startsToken ?_
  cases literal.quote <;> constructor <;> decide

lemma Literal.mem_ne {literal : Literal} (hc : c ∈ literal.body) :
    c ≠ literal.quote.mark ∧ c ≠ '\n' ∧ c ≠ '\\' := by
  obtain ⟨hsingle, hdouble, hescape⟩ := literal.isPlain.unquoted c hc
  refine ⟨?_, ?_, hescape⟩
  · cases literal.quote
    · exact hsingle
    · exact hdouble
  · rintro rfl
    exact absurd (literal.isPlain.printable _ hc) (by decide)

lemma stringBody_literal (literal : Literal) (rest : List Char) :
    stringBody literal.quote.mark (literal.body ++ literal.quote.mark :: rest) =
      some (literal.body, rest) := by
  have hbody := fun c => @Literal.mem_ne c literal
  generalize literal.body = body at hbody ⊢
  induction body with
  | nil =>
    rw [List.nil_append, stringBody.eq_3 _ _ _ fun _ _ h _ => (Quote.mark_ne _).2 h, if_pos rfl]
  | cons c body ih =>
    obtain ⟨hquote, hline, hescape⟩ := hbody c List.mem_cons_self
    rw [List.cons_append, stringBody.eq_3 _ _ _ fun _ _ h _ => hescape h, if_neg hquote,
      if_neg hline, ih fun d hd => hbody d (List.mem_cons_of_mem c hd)]
    rfl

/-- A printed string stands at a cursor, with some text after it. -/
def AtLiteral (cursor : Cursor) (literal : Literal) (rest : List Char) : Prop :=
  cursor.rest = literal.text ++ rest

namespace AtLiteral

variable {literal : Literal} (hcursor : AtLiteral cursor literal rest)

include hcursor

lemma eq_cons :
    cursor.rest = literal.quote.mark :: (literal.body ++ literal.quote.mark :: rest) := by
  rw [hcursor, Literal.text, List.cons_append, List.cons_append, List.append_assoc]
  rfl

lemma word_eq : cursor.word = "" :=
  word_of_sign hcursor.eq_cons (Quote.mark_ne _).1 (Quote.mark_ne _).2

lemma hasString_eq : cursor.hasString = true := by
  rw [Cursor.hasString, Cursor.startsWith, hcursor.eq_cons]
  cases literal.quote <;> rfl

/-- No other sign stands where a string does. -/
lemma starts_eq {text : String} {c : Char} {more : List Char} (htext : text.toList = c :: more)
    (hc : c ≠ '\'' ∧ c ≠ '"') : cursor.starts text = false := by
  rw [Cursor.starts, hcursor.eq_cons, htext, List.isPrefixOf, Bool.and_eq_false_iff]
  left
  rw [beq_eq_false_iff_ne]
  cases literal.quote
  · exact hc.1
  · exact hc.2

lemma string?_eq : string? cursor = some (literal.text, cursor.move rest) := by
  have hquote : literal.quote.mark = '\'' ∨ literal.quote.mark = '"' := by
    cases literal.quote
    · exact Or.inl rfl
    · exact Or.inr rfl
  rw [string?, hcursor.eq_cons]
  dsimp only
  rw [if_pos hquote, stringBody_literal]
  rfl

lemma string_eq : string cursor = some (cursor.move rest) := by
  rw [string, hcursor.string?_eq]
  rfl

/-- A string that names a file is recorded, quotes included. -/
lemma file_eq (mention : List Char → Mention) (hrest : Leads rest text) :
    file mention cursor = some (here text (mention literal.text :: cursor.found)) := by
  rw [file, hcursor.string?_eq, move_of_leads hrest]
  rfl

end AtLiteral

end ImportRank.Script
