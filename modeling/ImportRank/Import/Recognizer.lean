/-!
# Recognizers

A recognizer moves a place in a source past something, or fails. These are the ways to combine
them that do not depend on what a place is.
-/

namespace ImportRank

/-- Moves past something, or fails. -/
abbrev Recognizer (σ : Type) := σ → Option σ

namespace Recognizer

variable {σ : Type}

/-- Moves past something if it is there. -/
def optionally (r : Recognizer σ) : Recognizer σ := fun place => some ((r place).getD place)

/-- Takes steps until one says that it is done, and at most as many as a list is long. A step that
fails makes the whole fail. -/
def steps {α : Type} (step : σ → Option (Option σ)) : List α → Recognizer σ
  | [], place => some place
  | _ :: limit, place =>
    match step place with
    | none => none
    | some none => some place
    | some (some next) => steps step limit next

end Recognizer

end ImportRank
