/-!
# How many files a report shows

A limit keeps the first items of a list. A negative limit leaves out that many at the end.
-/

namespace ImportRank

/-- The items a limit keeps; no limit keeps all. -/
def select {ι : Type} (limit : Option Int) (items : List ι) : List ι :=
  match limit with
  | none => items
  | some limit =>
    if limit < 0 then items.take ((items.length : Int) + limit).toNat else items.take limit.toNat

end ImportRank
