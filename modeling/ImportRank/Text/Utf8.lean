/-!
# UTF-8

Bytes are read as characters in two ways: strictly, where one ill-formed sequence spoils the
whole text, and leniently, where each longest ill-formed prefix becomes one replacement
character. Both are folds of one step, `leadCharacter`.
-/

namespace ImportRank.Text

/-- The bytes of a text. -/
def encode (text : List Char) : List UInt8 := (String.ofList text).toUTF8.data.toList

/-- Whether a byte continues a sequence. -/
def isContinuation (byte : UInt8) : Bool := 0x80 ≤ byte && byte ≤ 0xBF

/-- The second bytes that a lead byte of a longer sequence allows: surrogates, overlong forms and
code points past the last one are cut off here. -/
def allowsSecond (lead second : UInt8) : Bool :=
  if lead = 0xE0 then 0xA0 ≤ second && second ≤ 0xBF
  else if lead = 0xED then 0x80 ≤ second && second ≤ 0x9F
  else if lead = 0xF0 then 0x90 ≤ second && second ≤ 0xBF
  else if lead = 0xF4 then 0x80 ≤ second && second ≤ 0x8F
  else isContinuation second

/-- The six payload bits of a continuation byte. -/
def payload (byte : UInt8) : Nat := byte.toNat % 0x40

/-- The character that starts with a lead byte and the number of bytes it takes of those that
follow; no character when the sequence is ill-formed, and then the number of further bytes in its
longest well-formed prefix. -/
def leadCharacter (lead : UInt8) (rest : List UInt8) : Option Char × Nat :=
  if lead < 0x80 then (some (Char.ofNat lead.toNat), 0)
  else if 0xC2 ≤ lead && lead ≤ 0xDF then
    match rest with
    | b1 :: _ =>
      if isContinuation b1 then (some (Char.ofNat (lead.toNat % 0x20 * 0x40 + payload b1)), 1)
      else (none, 0)
    | [] => (none, 0)
  else if 0xE0 ≤ lead && lead ≤ 0xEF then
    match rest with
    | b1 :: b2 :: _ =>
      if !allowsSecond lead b1 then (none, 0)
      else if !isContinuation b2 then (none, 1)
      else (some (Char.ofNat ((lead.toNat % 0x10 * 0x40 + payload b1) * 0x40 + payload b2)), 2)
    | [b1] => (none, if allowsSecond lead b1 then 1 else 0)
    | [] => (none, 0)
  else if 0xF0 ≤ lead && lead ≤ 0xF4 then
    match rest with
    | b1 :: b2 :: b3 :: _ =>
      if !allowsSecond lead b1 then (none, 0)
      else if !isContinuation b2 then (none, 1)
      else if !isContinuation b3 then (none, 2)
      else
        (some (Char.ofNat
          (((lead.toNat % 0x08 * 0x40 + payload b1) * 0x40 + payload b2) * 0x40 + payload b3)), 3)
    | [b1, b2] =>
      (none, if !allowsSecond lead b1 then 0 else if isContinuation b2 then 2 else 1)
    | [b1] => (none, if allowsSecond lead b1 then 1 else 0)
    | [] => (none, 0)
  else (none, 0)

/-- Reads bytes as characters; `none` where a sequence is ill-formed. -/
def scalars : List UInt8 → List (Option Char)
  | [] => []
  | lead :: rest =>
    let (c, count) := leadCharacter lead rest
    c :: scalars (rest.drop count)
termination_by bytes => bytes.length
decreasing_by simp only [List.length_drop, List.length_cons]; omega

/-- The characters of well-formed bytes. -/
def decode? (bytes : List UInt8) : Option (List Char) := (scalars bytes).mapM id

/-- The characters of any bytes, U+FFFD standing for each ill-formed sequence. -/
def decodeLenient (bytes : List UInt8) : List Char :=
  (scalars bytes).map (·.getD (Char.ofNat 0xFFFD))

end ImportRank.Text
