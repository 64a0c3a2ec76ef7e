import ImportRank.Import.Script.Type

/-!
# Markup

An element has a name, attributes and children, or is a nameless fragment. The text between its
children counts as it stands, without comments or strings; expressions stand in braces.
-/

namespace ImportRank.Script.Grammar

open ImportRank.Recognizer (optionally)

/-- Whether a character can be in the name of an element or attribute. -/
def isMarkupChar (c : Char) : Bool := isWordChar c || c == '-' || c == ':' || c == '.'

/-- The name of an element or attribute. -/
def markupName : Recognizer := fun cursor =>
  if cursor.hasWord then some (cursor.move (cursor.rest.dropWhile isMarkupChar)) else none

/-- A quoted attribute value: it has no escapes and ends at its quote. -/
def markupString : Recognizer := fun cursor =>
  match cursor.rest with
  | quote :: rest =>
    match rest.dropWhile (· ≠ quote) with
    | _ :: after => some (cursor.move after)
    | [] => none
  | [] => none

/-- An attribute, or the attributes of an object. -/
def markupAttribute (g : Grammar) : Recognizer := fun cursor => do
  if cursor.starts openBrace then
    let cursor ← optionally (symbol "...") (← symbol openBrace cursor)
    symbol closeBrace (← g.part (.expression true) cursor)
  else
    let cursor ← markupName cursor
    if cursor.starts "=" then
      let cursor ← symbol "=" cursor
      if cursor.hasString then markupString cursor
      else if cursor.starts openBrace then symbol closeBrace (← g.sequence true (← symbol openBrace cursor))
      else
        let cursor ← g.part .element cursor
        return cursor.move cursor.rest
    else return cursor

/-- An element, up to the character after its end. -/
def element (g : Grammar) : Recognizer := fun cursor => do
  let cursor ← symbol "<" cursor
  match cursor.rest with
  | '>' :: rest => g.part .children { cursor with rest }
  | _ =>
    let cursor ← markupName cursor
    let cursor ←
      if g.dialect.typed && cursor.starts "<" then g.typeList cursor else some cursor
    let cursor ← loop (fun cursor =>
      if cursor.starts "/" || cursor.starts ">" then some none
      else (g.markupAttribute cursor).map some) cursor
    match cursor.rest with
    | '>' :: rest => g.part .children { cursor with rest }
    | _ =>
      let cursor ← symbol "/" cursor
      match cursor.rest with
      | '>' :: rest => return { cursor with rest }
      | _ => none

/-- The children of an element, from the middle of their text on, and its closing tag, up to the
character after it. -/
def children (g : Grammar) : Recognizer := fun cursor => do
  match cursor.rest.dropWhile fun c => c ≠ '<' && c ≠ '{' && c ≠ '>' && c ≠ '}' with
  | '<' :: rest =>
    let opened := cursor.move rest
    if opened.starts "/" then
      let closing ← optionally markupName (← symbol "/" opened)
      match closing.rest with
      | '>' :: rest => return { closing with rest }
      | _ => none
    else g.part .children (← g.part .element { cursor with rest := '<' :: rest })
  | '{' :: rest =>
    let cursor := cursor.move rest
    let cursor ←
      if cursor.starts closeBrace then some cursor
      else g.sequence true (← optionally (symbol "...") cursor)
    match cursor.rest with
    | '}' :: rest => g.part .children { cursor with rest }
    | _ => none
  | _ => none

end ImportRank.Script.Grammar
