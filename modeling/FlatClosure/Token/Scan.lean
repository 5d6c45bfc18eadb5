/-
Scanning: from the bytes of a source to its tokens.

* `Lexeme.first?`: the longest lexeme that a text starts with.
* `Token.scan`: skips blanks, takes lexeme after lexeme and closes the list
  with one end token. It stops at a byte where no lexeme starts and at a
  numeral whose integer part does not fit into 63 bits.
* `LexError`: the byte and the place where scanning stopped, and why.
-/
import FlatClosure.Text.Quoted
import FlatClosure.Token.Basic

namespace FlatClosure

/-! ### Errors -/

/-- Why scanning stopped. -/
inductive LexError.Cause where
  /-- No lexeme starts with the byte. -/
  | unexpected
  /-- The integer part of the numeral is too large. -/
  | outOfRange (numeral : Text)
  /-- Another reason, in words. -/
  | other (message : Text)
  deriving DecidableEq, Inhabited

/-- A source cannot be scanned past `pos`, where the byte `char` stands. -/
structure LexError where
  char : UInt8
  pos : Pos
  cause : LexError.Cause
  deriving DecidableEq, Inhabited

/-- The message of a scanning error. -/
def LexError.message (e : LexError) : Text :=
  "lex-error: " ++ e.pos.render ++ ": " ++
    match e.cause with
    | .unexpected => "Unexpected character: " ++ Text.quoteByte e.char
    | .outOfRange numeral => "Number literal out of range: " ++ numeral
    | .other message => message

/-! ### Lexemes -/

/-- A lexeme with the kind of its token. -/
structure Lexeme where
  kind : Kind
  text : Text
  deriving DecidableEq

namespace Lexeme

open Text

/-- The digits a text starts with and, when a dot and a digit follow, the dot
and the digits after it. -/
def numeral (s : Text) : Text :=
  let whole := s.takeWhile isDigit
  match s.dropWhile isDigit with
  | 46 :: rest =>
    match rest.takeWhile isDigit with
    | [] => whole
    | fraction => whole ++ 46 :: fraction
  | _ => whole

/-- The kind of an identifier: `fun` and `let` are keywords. -/
def wordKind (word : Text) : Kind :=
  if word = Kind.funKeyword.spelling then .funKeyword
  else if word = Kind.letKeyword.spelling then .letKeyword
  else .symbol

/-- The longest lexeme a text starts with. -/
def first? : Text → Option Lexeme
  | [] => none
  | 40 :: _ => some ⟨.leftParen, "("⟩
  | 41 :: _ => some ⟨.rightParen, ")"⟩
  | 44 :: _ => some ⟨.comma, ","⟩
  | 59 :: _ => some ⟨.semicolon, ";"⟩
  | 61 :: 62 :: _ => some ⟨.arrow, "=>"⟩
  | 61 :: _ => some ⟨.equal, "="⟩
  | b :: rest =>
    if isDigit b then some ⟨.number, numeral (b :: rest)⟩
    else if isLetter b then
      let word := (b :: rest).takeWhile isWordByte
      some ⟨wordKind word, word⟩
    else none

/-- The value of a numeral is that of the digits before the dot; other lexemes
have value zero. -/
def value (l : Lexeme) : Nat :=
  match l.kind with
  | .number => decimalValue (l.text.takeWhile isDigit)
  | _ => 0

/-- The token of a lexeme that stands at `pos`. -/
def token (l : Lexeme) (pos : Pos) : Token :=
  ⟨l.kind, l.text, pos, Int64.ofNat l.value⟩

end Lexeme

/-! ### Scanning -/

/-- Numerals stay below this number. -/
def literalLimit : Nat := Nat.pow 2 63

namespace Token

/-- The tokens of the rest of a source that continues at `pos`. The first byte
of the rest belongs to the lexeme taken there, so the rest gets shorter. -/
def scanFrom (pos : Pos) : Text → Except LexError (List Token)
  | [] => .ok [endAt pos]
  | b :: rest =>
    if Text.isBlank b then scanFrom (pos.after b) rest
    else
      match Lexeme.first? (b :: rest) with
      | none => .error ⟨b, pos, .unexpected⟩
      | some lexeme =>
        if literalLimit ≤ lexeme.value then .error ⟨b, pos, .outOfRange lexeme.text⟩
        else
          (scanFrom (pos.shift lexeme.text.length) (rest.drop (lexeme.text.length - 1))).map
            (lexeme.token pos :: ·)
termination_by s => s.length
decreasing_by
  · simp
  · simp only [List.length_drop, List.length_cons]
    omega

/-- The tokens of a source, closed by one end token. -/
def scan (source : Text) : Except LexError (List Token) := scanFrom Pos.start source

/-- Whether the rendered tokens scan back to the same tokens up to
positions. -/
def rescans (ts : List Token) : Bool :=
  match scan (renderAll ts) with
  | .ok again => agreeAll ts again
  | .error _ => false

end Token

end FlatClosure
