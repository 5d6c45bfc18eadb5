/-
Tokens of the language.

* `Kind`: what a token is. Kinds are numbered (`Kind.code`, `Kind.ofCode`); the
  keywords are those numbered between two markers.
* `Pos`: a line and a column, both counted from one in what a scan gives.
* `Token`: kind, lexeme, position and, for a numeral, its integer value.
* `Token.render`: the token as it stands in a source; `Token.describe`: how a
  message names it; `Token.agrees`: equality up to positions.
-/
import FlatClosure.Text.Basic

namespace FlatClosure

/-- The kinds of tokens. -/
inductive Kind where
  | number
  | symbol
  | eof
  /-- The marker below the keywords. -/
  | keywordBegin
  | funKeyword
  | letKeyword
  /-- The marker above the keywords. -/
  | keywordEnd
  | leftParen
  | rightParen
  | comma
  | semicolon
  | equal
  | arrow
  /-- A number that no kind has. -/
  | other (code : Int)
  deriving DecidableEq, Inhabited

namespace Kind

/-- The number of a kind. -/
def code : Kind → Int
  | number => 0
  | symbol => 1
  | eof => 2
  | keywordBegin => 3
  | funKeyword => 4
  | letKeyword => 5
  | keywordEnd => 6
  | leftParen => 7
  | rightParen => 8
  | comma => 9
  | semicolon => 10
  | equal => 11
  | arrow => 12
  | other code => code

/-- The kind with a given number. -/
def ofCode : Int → Kind
  | 0 => number
  | 1 => symbol
  | 2 => eof
  | 3 => keywordBegin
  | 4 => funKeyword
  | 5 => letKeyword
  | 6 => keywordEnd
  | 7 => leftParen
  | 8 => rightParen
  | 9 => comma
  | 10 => semicolon
  | 11 => equal
  | 12 => arrow
  | code => other code

/-- The name of a kind. -/
def name : Kind → Text
  | number => "NUMBER"
  | symbol => "SYMBOL"
  | eof => "EOF"
  | keywordBegin => "KEYWORD_BEGIN"
  | funKeyword => "FUN"
  | letKeyword => "LET"
  | keywordEnd => "KEYWORD_END"
  | leftParen => "LEFT_PAREN"
  | rightParen => "RIGHT_PAREN"
  | comma => "COMMA"
  | semicolon => "SEMICOLON"
  | equal => "EQUAL"
  | arrow => "ARROW"
  | other code => "TokenType(" ++ Text.ofInt code ++ ")"

/-- Whether the kind is a keyword. -/
def isKeyword : Kind → Bool
  | funKeyword | letKeyword => true
  | _ => false

/-- The one lexeme of a keyword or of a punctuation mark; empty for the other
kinds. -/
def spelling : Kind → Text
  | funKeyword => "fun"
  | letKeyword => "let"
  | leftParen => "("
  | rightParen => ")"
  | comma => ","
  | semicolon => ";"
  | equal => "="
  | arrow => "=>"
  | _ => ""

end Kind

/-- A place in a source: line and column. -/
structure Pos where
  line : Int
  column : Int
  deriving DecidableEq, Inhabited

namespace Pos

/-- The place of the first byte of a source. -/
def start : Pos := ⟨1, 1⟩

/-- The place after a byte: a line feed starts the next line, any other byte
takes one column. -/
def after (p : Pos) (b : UInt8) : Pos :=
  if b = 10 then ⟨p.line + 1, 1⟩ else ⟨p.line, p.column + 1⟩

/-- The place a number of columns further on the same line. -/
def shift (p : Pos) (n : Nat) : Pos := ⟨p.line, p.column + n⟩

/-- Line and column with a colon between them. -/
def render (p : Pos) : Text := Text.ofInt p.line ++ ":" ++ Text.ofInt p.column

end Pos

/-- A token of a source. -/
structure Token where
  kind : Kind
  lexeme : Text
  pos : Pos
  /-- The integer part of a numeral; zero for the other kinds. -/
  value : Int64
  deriving DecidableEq, Inhabited

namespace Token

/-- The end of a source. -/
def endAt (pos : Pos) : Token := ⟨.eof, [], pos, 0⟩

/-- The token as it stands in a source. -/
def render (t : Token) : Text :=
  match t.kind with
  | .number | .symbol => t.lexeme
  | kind => kind.spelling

/-- How a message names the token. -/
def describe (t : Token) : Text :=
  match t.kind with
  | .eof => "end of file"
  | .number | .symbol => t.kind.name ++ " `" ++ t.lexeme ++ "`"
  | kind => "`" ++ kind.spelling ++ "`"

/-- Whether two tokens are equal up to their positions. -/
def agrees (a b : Token) : Bool :=
  a.kind == b.kind && a.lexeme == b.lexeme && a.value == b.value

/-- Whether two lists of tokens are equal up to positions. -/
def agreeAll : List Token → List Token → Bool
  | [], [] => true
  | a :: as, b :: bs => a.agrees b && agreeAll as bs
  | _, _ => false

/-- The tokens as one text, a blank between neighbours. -/
def renderAll (ts : List Token) : Text := Text.join " " (ts.map render)

end Token

end FlatClosure
