/-
Texts: strings of bytes.

Source files are arbitrary bytes, positions in them count bytes, and every name
of a program is a slice of its source, so one type of byte strings serves for
all of them. A `String` literal stands for its UTF-8 bytes.

* `Text.ofString`, the coercion behind literals, and `ofString_append`.
* `ofNat`, `ofInt`: decimal numerals; `decimalValue` reads digits back.
* `splitOn`, `lines`, `join`: cutting at a byte and joining with a separator.
* `isDigit`, `isLetter`, `isWordByte`, `isBlank`: the byte classes of the
  language.
-/

namespace FlatClosure

/-- A string of bytes. -/
abbrev Text := List UInt8

namespace Text

/-- The UTF-8 bytes of a string. -/
def ofString (s : String) : Text := s.toUTF8.data.toList

/-- A string literal in the place of a text stands for its UTF-8 bytes. -/
instance : Coe String Text := ⟨ofString⟩

/-- The bytes of a concatenation are the concatenated bytes. -/
theorem ofString_append (s t : String) : ofString (s ++ t) = ofString s ++ ofString t := by
  simp [ofString, String.toUTF8]

/-! ### Numerals -/

/-- The decimal numeral of a natural number. -/
def ofNat (n : Nat) : Text := (Nat.toDigits 10 n).map Char.toUInt8

/-- The decimal numeral of an integer, with a minus sign when it is negative. -/
def ofInt : Int → Text
  | .ofNat n => ofNat n
  | .negSucc n => "-" ++ ofNat (n + 1)

/-- The number a run of decimal digits denotes. -/
def decimalValue (digits : Text) : Nat :=
  digits.foldl (fun n b => 10 * n + (b.toNat - 48)) 0

/-- Blanks in front of a text that is shorter than the given width. -/
def padLeft (width : Nat) (t : Text) : Text :=
  List.replicate (width - t.length) 32 ++ t

/-- The two lowercase hexadecimal digits of a byte. -/
def hexByte (b : UInt8) : Text :=
  [(Nat.digitChar (b.toNat / 16)).toUInt8, (Nat.digitChar (b.toNat % 16)).toUInt8]

/-- The hexadecimal numeral of a number in lowercase, zeros filling the width. -/
def hexNat (width n : Nat) : Text :=
  let digits := (Nat.toDigits 16 n).map Char.toUInt8
  List.replicate (width - digits.length) 48 ++ digits

/-! ### Cutting and joining -/

/-- The pieces between the occurrences of a byte; one more piece than there are
occurrences. -/
def splitOn (sep : UInt8) : Text → List Text
  | [] => [[]]
  | b :: rest =>
    if b = sep then [] :: splitOn sep rest
    else
      match splitOn sep rest with
      | [] => [[b]]
      | piece :: pieces => (b :: piece) :: pieces

/-- The lines of a text: the pieces between line feeds. -/
def lines (t : Text) : List Text := splitOn 10 t

/-- The texts in order with the separator between neighbours. -/
def join (sep : Text) : List Text → Text
  | [] => []
  | [t] => t
  | t :: ts => t ++ sep ++ join sep ts

/-! ### Byte classes -/

/-- A decimal digit. -/
def isDigit (b : UInt8) : Bool := 48 ≤ b && b ≤ 57

/-- An ASCII letter or an underscore. -/
def isLetter (b : UInt8) : Bool :=
  (97 ≤ b && b ≤ 122) || (65 ≤ b && b ≤ 90) || b == 95

/-- A byte that continues an identifier. -/
def isWordByte (b : UInt8) : Bool := isLetter b || isDigit b

/-- Space, tab, carriage return or line feed. -/
def isBlank (b : UInt8) : Bool := b == 32 || b == 9 || b == 13 || b == 10

/-- The ASCII lowercase of a text; other bytes stay. -/
def toLower (t : Text) : Text :=
  t.map fun b => if 65 ≤ b && b ≤ 90 then b + 32 else b

end Text

end FlatClosure
