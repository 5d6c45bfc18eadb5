/-
Quoted texts.

A quoted text stands between two marks. The mark itself and the backslash are
escaped by a backslash, printable characters stand as they are, and everything
else is written by name or by number, so that a quoted text is always valid
UTF-8 and fits on one line.

* `pieces`: a text as characters and stray bytes, the bytes that do not belong
  to a valid UTF-8 sequence.
* `escape`: what is written for one character between given marks.
* `quote`: a text in double quotes; `quoteByte`: the character whose code point
  is a byte, in single quotes.
-/
import FlatClosure.Text.Basic
import FlatClosure.Text.Printable

namespace FlatClosure.Text

/-- One unit of a text read as UTF-8. -/
inductive Piece where
  /-- A character that the text encodes. -/
  | char (c : Char)
  /-- A byte that is part of no encoded character. -/
  | stray (b : UInt8)

/-- The units of a byte array from an offset on. -/
def piecesFrom (bytes : ByteArray) (i : Nat) : List Piece :=
  if h : i < bytes.size then
    match bytes.utf8DecodeChar? i with
    | some c => .char c :: piecesFrom bytes (i + c.utf8Size)
    | none => .stray bytes[i] :: piecesFrom bytes (i + 1)
  else []
termination_by bytes.size - i
decreasing_by
  · have := c.utf8Size_pos
    omega
  · omega

/-- The units of a text. -/
def pieces (t : Text) : List Piece := piecesFrom ⟨t.toArray⟩ 0

/-- The letter that names a control character, for those that have one. -/
def controlName? : Nat → Option Text
  | 7 => some "a"
  | 8 => some "b"
  | 9 => some "t"
  | 10 => some "n"
  | 11 => some "v"
  | 12 => some "f"
  | 13 => some "r"
  | _ => none

/-- One character between marks: the mark and the backslash after a backslash,
printable characters as they are, control characters by name, and the others by
their number in two, four or eight hexadecimal digits. -/
def escape (mark : Char) (c : Char) : Text :=
  if c = mark ∨ c = '\\' then "\\" ++ String.utf8EncodeChar c
  else if isPrintable c then String.utf8EncodeChar c
  else
    match controlName? c.toNat with
    | some name => "\\" ++ name
    | none =>
      if c.toNat < 0x80 then "\\x" ++ hexNat 2 c.toNat
      else if c.toNat < 0x10000 then "\\u" ++ hexNat 4 c.toNat
      else "\\U" ++ hexNat 8 c.toNat

/-- One unit of a text in double quotes. A stray byte is written by its
number. -/
def Piece.escape : Piece → Text
  | .char c => Text.escape '"' c
  | .stray b => "\\x" ++ hexByte b

/-- A text in double quotes. -/
def quote (t : Text) : Text :=
  "\"" ++ (pieces t).flatMap Piece.escape ++ "\""

/-- The character whose code point is the byte, in single quotes. -/
def quoteByte (b : UInt8) : Text :=
  "'" ++ escape '\'' (Char.ofNat b.toNat) ++ "'"

end FlatClosure.Text
