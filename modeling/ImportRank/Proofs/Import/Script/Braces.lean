import ImportRank.Import.Script.Statement
import ImportRank.Proofs.Import.Script.Cursors
import ImportRank.Proofs.Import.Steps

/-!
# Printed names in braces

A list of names in braces, each with another name or not, is passed over up to what follows its
closing brace, however long it is. Main statement: `nameList_eq`.
-/

namespace ImportRank.Script.Grammar

variable {word after text rest : List Char} {found : List Mention} {cursor : Cursor}

/-! ## One name -/

/-- A name, or a string in place of one. -/
def nameOne : Recognizer := fun cursor => if cursor.hasString then string cursor else name cursor

/-- A name, and all that stands beside it. -/
def nameElement : Recognizer := fun cursor => do many nameOne (← nameOne cursor)

lemma nameOne_word (hcursor : AtWord cursor word rest) (hrest : Leads rest text) :
    nameOne cursor = some (here text cursor.found) := by
  rw [nameOne, hcursor.hasString_eq, if_neg Bool.false_ne_true, hcursor.name_eq,
    move_of_leads hrest]

lemma nameOne_sign {c : Char} (hc : c ∈ [',', '}']) : nameOne (here (c :: rest) found) = none := by
  simp only [List.mem_cons, List.not_mem_nil, or_false] at hc
  obtain rfl | rfl := hc
  · show name (here (',' :: rest) found) = none
    exact name_of_sign rfl (by decide) (by decide)
  · show name (here ('}' :: rest) found) = none
    exact name_of_sign rfl (by decide) (by decide)

/-- What follows an item: a blank and the closing brace, or a comma. -/
structure EndsItem (after : List Char) (c : Char) (rest : List Char) : Prop where
  ends : EndsWord after
  leads : Leads after (c :: rest)
  sign : c ∈ [',', '}']

lemma loop_of_done {step : Cursor → Option (Option Cursor)} (hstep : step cursor = some none) :
    loop step cursor = some cursor := by
  rw [loop]
  cases cursor.rest with
  | nil => rfl
  | cons c rest => rw [Recognizer.steps, hstep]

lemma many_of_eq_none {r : Recognizer} (hr : r cursor = none) : many r cursor = some cursor :=
  loop_of_done (congrArg some hr)

lemma many_of_eq_some {r : Recognizer} {next : Cursor} {c : Char}
    (hcursor : cursor.rest = c :: rest) (hr : r cursor = some next) :
    many r cursor = Recognizer.steps (fun cursor => some (r cursor)) rest next := by
  rw [many, loop, hcursor, Recognizer.steps, hr]

lemma nameElement_item {c : Char} (item : Item) (hafter : EndsItem after c rest)
    (hcursor : cursor.rest = item.text ++ after) :
    nameElement cursor = some (here (c :: rest) cursor.found) := by
  obtain ⟨name, other⟩ := item
  have hstop : nameOne (here (c :: rest) cursor.found) = none := nameOne_sign hafter.sign
  cases other with
  | none =>
    have hname : AtWord cursor name.text after := by
      refine ⟨?_, name.isWord, hafter.ends⟩
      rw [hcursor, Item.text, Item.otherText, List.append_nil]
    rw [nameElement, nameOne_word hname hafter.leads]
    exact many_of_eq_none hstop
  | some other =>
    have hname : AtWord cursor name.text
        (' ' :: ("as".toList ++ ' ' :: (other.text ++ after))) := by
      refine ⟨?_, name.isWord, endsWord_cons (by decide)⟩
      rw [hcursor, Item.text, Item.otherText]
      simp only [List.append_assoc, List.cons_append]
    have has : Text.IsWord isWordChar "as".toList := by decide
    have hfirst : nameOne (here ("as".toList ++ ' ' :: (other.text ++ after)) cursor.found) =
        some (here (other.text ++ after) cursor.found) :=
      nameOne_word ⟨rfl, has, endsWord_cons (by decide)⟩ (leads_blank (leads_word other.isWord))
    have hsecond : nameOne (here (other.text ++ after) cursor.found) =
        some (here (c :: rest) cursor.found) :=
      nameOne_word ⟨rfl, other.isWord, hafter.ends⟩ hafter.leads
    have hlimit : (here ("as".toList ++ ' ' :: (other.text ++ after)) cursor.found).rest =
        'a' :: 's' :: ' ' :: (other.text ++ after) := rfl
    rw [nameElement, nameOne_word hname (leads_blank (leads_word has))]
    refine (many_of_eq_some hlimit hfirst).trans ?_
    rw [Recognizer.steps, hsecond]
    dsimp only
    rw [Recognizer.steps, hstop]

/-! ## All names -/

/-- The items from one of them on, and what follows the closing brace. -/
def itemsRest : List Item → List Char → List Char
  | [], after => '}' :: after
  | item :: more, after =>
    item.text ++ ((more.flatMap fun item => ',' :: ' ' :: item.text) ++ ' ' :: '}' :: after)

/-- The step with which elements are read that have commas between them. -/
def listStep (close : String) (element : Recognizer) (cursor : Cursor) : Option (Option Cursor) :=
  if cursor.starts close then return none
  else if cursor.starts "," then return symbol "," cursor
  else do
    let cursor ← element cursor
    if cursor.starts close then return some cursor
    else return some (← symbol "," cursor)

lemma listUntil_eq (close : String) (element : Recognizer) (cursor : Cursor) :
    listUntil close element cursor =
      (loop (listStep close element) cursor).bind (symbol close) := rfl

/-- After an element the step takes a comma, but it leaves what closes the list. -/
lemma listStep_element {close : String} {element : Recognizer} {next : Cursor}
    (hclose : cursor.starts close = false) (hcomma : cursor.starts "," = false)
    (helement : element cursor = some next) :
    listStep close element cursor =
      if next.starts close then some (some next) else (symbol "," next).map some := by
  rw [listStep, hclose, hcomma, helement]
  simp only [Bool.false_eq_true, if_false, Option.bind_eq_bind, Option.bind_some]
  split
  · rfl
  · cases symbol "," next <;> rfl

lemma endsItem_brace : EndsItem (' ' :: '}' :: after) '}' after where
  ends := endsWord_cons (by decide)
  leads := leads_blank (leads_of_startsToken (by constructor <;> decide))
  sign := by decide

lemma endsItem_comma : EndsItem (',' :: after) ',' after where
  ends := endsWord_cons (by decide)
  leads := leads_of_startsToken (by constructor <;> decide)
  sign := by decide

lemma exists_atWord_item (item : Item) (hafter : EndsWord after)
    (hcursor : cursor.rest = item.text ++ after) : ∃ rest, AtWord cursor item.name.text rest := by
  obtain ⟨name, other⟩ := item
  rw [Item.text, List.append_assoc] at hcursor
  refine ⟨_, hcursor, name.isWord, ?_⟩
  cases other with
  | none => exact hafter
  | some other => exact endsWord_cons (by decide)

lemma itemStep_item {more : List Char} {c : Char} (item : Item) (hmore : EndsItem more c rest)
    (hcursor : cursor.rest = item.text ++ more) :
    listStep closeBrace nameElement cursor =
      if (here (c :: rest) cursor.found).starts closeBrace then
        some (some (here (c :: rest) cursor.found))
      else (symbol "," (here (c :: rest) cursor.found)).map some := by
  obtain ⟨_, hword⟩ := exists_atWord_item item hmore.ends hcursor
  exact listStep_element (hword.starts_eq rfl (by decide)) (hword.starts_eq rfl (by decide))
    (nameElement_item item hmore hcursor)

lemma itemsRest_cons_cons (item next : Item) (more : List Item) (after : List Char) :
    itemsRest (item :: next :: more) after =
      item.text ++ ',' :: ' ' :: itemsRest (next :: more) after := by
  simp only [itemsRest, List.flatMap_cons, List.cons_append, List.append_assoc]

lemma leads_itemsRest (items : List Item) (after : List Char) :
    Leads (itemsRest items after) (itemsRest items after) := by
  cases items with
  | nil => exact leads_of_startsToken (by constructor <;> decide)
  | cons item more =>
    rw [itemsRest, Item.text, List.append_assoc]
    exact leads_word item.name.isWord

lemma leads_itemsText (items : List Item) (after : List Char) :
    Leads (itemsText items ++ after) (itemsText items ++ after) := by
  cases items <;> exact leads_of_startsToken (by constructor <;> decide)

/-- A cursor before some of the items. -/
def AtItems (after : List Char) (found : List Mention) (items : List Item) (cursor : Cursor) :
    Prop :=
  cursor = here (itemsRest items after) found

lemma itemStep_done (hcursor : AtItems after found [] cursor) :
    listStep closeBrace nameElement cursor = some none := by
  rw [hcursor]
  rfl

lemma itemStep_next (item : Item) (items : List Item)
    (hcursor : AtItems after found (item :: items) cursor) :
    ∃ next, listStep closeBrace nameElement cursor = some (some next) ∧
      AtItems after found items next := by
  refine ⟨_, ?_, rfl⟩
  rw [hcursor]
  cases items with
  | nil => exact itemStep_item item endsItem_brace rfl
  | cons next more =>
    have hcomma : symbol "," (here (',' :: ' ' :: itemsRest (next :: more) after) found) =
        some (here (itemsRest (next :: more) after) found) :=
      symbol_of_leads (show ",".toList = [','] from rfl) rfl (leads_blank (leads_itemsRest _ _))
    rw [itemsRest_cons_cons]
    exact (itemStep_item item endsItem_comma rfl).trans (congrArg (Option.map some) hcomma)

lemma symbol_openBrace (items : List Item) (hcursor : cursor.rest = itemsText items ++ after) :
    symbol openBrace cursor = some (here (itemsRest items after) cursor.found) := by
  have hbrace : openBrace.toList = ['{'] := rfl
  cases items with
  | nil => exact symbol_of_leads hbrace hcursor (leads_itemsRest [] after)
  | cons item more =>
    refine symbol_of_leads hbrace ?_ (leads_blank (leads_itemsRest (item :: more) after))
    rw [hcursor, itemsText, itemsRest]
    simp only [List.cons_append, List.append_assoc, List.nil_append]

lemma length_le_itemsRest (items : List Item) (after : List Char) :
    items.length ≤ (itemsRest items after).length := by
  cases items with
  | nil => exact Nat.zero_le _
  | cons item more =>
    have hmore : more.length ≤ (more.flatMap fun item => ',' :: ' ' :: item.text).length :=
      Recognizer.length_le_flatMap (fun _ => List.cons_ne_nil _ _) more
    rw [itemsRest, List.length_append, List.length_append, List.length_cons, List.length_cons]
    omega

/-- Names in braces are passed over. -/
lemma nameList_eq (items : List Item) (hafter : Leads after text)
    (hcursor : cursor.rest = itemsText items ++ after) :
    nameList cursor = some (here text cursor.found) := by
  have hstart : AtItems after cursor.found items (here (itemsRest items after) cursor.found) := rfl
  obtain ⟨last, hlast, rfl⟩ := Recognizer.exists_steps (fun _ => itemStep_done)
    (fun item items _ => itemStep_next item items) (length_le_itemsRest items after) hstart
  have hclose : symbol closeBrace (here ('}' :: after) cursor.found) =
      some (here text cursor.found) :=
    symbol_of_leads (show closeBrace.toList = ['}'] from rfl) rfl hafter
  show (symbol openBrace cursor).bind
    (fun cursor => (loop (listStep closeBrace nameElement) cursor).bind (symbol closeBrace)) = _
  rw [symbol_openBrace items hcursor, Option.bind_some, loop]
  show (Recognizer.steps (listStep closeBrace nameElement) (itemsRest items after) _).bind _ = _
  rw [hlast]
  exact hclose

end ImportRank.Script.Grammar
