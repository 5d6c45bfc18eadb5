/-
Excerpts: the lines of a source around a place, with a caret below the column.

* `excerpt`: the line of the place with its number, the caret line, and the
  lines before and after. Carriage returns before line feeds are dropped, a
  column outside the line counts as its nearer end, and a line outside the
  source gives no excerpt. An empty line after the place is left out.
-/
import FlatClosure.Token.Basic

namespace FlatClosure

/-- The text without the carriage returns that stand before line feeds. -/
def dropReturns : Text → Text
  | 13 :: 10 :: rest => 10 :: dropReturns rest
  | b :: rest => b :: dropReturns rest
  | [] => []

/-- A line after its number. -/
def numberedLine (number : Nat) (line : Text) : Text :=
  "\n" ++ Text.padLeft 4 (Text.ofNat number) ++ " | " ++ line

/-- A caret below a column of a line, counted from one. Tabs of the line stay
tabs, so that the caret stands where the column does. -/
def caretLine (line : Text) (column : Nat) : Text :=
  let filler : Text := (line.take (column - 1)).map fun b => if b = 9 then 9 else 32
  "\n     | " ++ filler ++ "^"

/-- The column, or the nearer end of a line of the given length. -/
def clampColumn (length : Nat) (column : Int) : Nat :=
  (max 1 (min column (length + 1))).toNat

/-- The lines around a place, with a caret below the column. -/
def excerpt (source : Text) (pos : Pos) : Text :=
  let lines := (dropReturns source).lines
  let number := pos.line.toNat
  match if 1 ≤ pos.line then lines[number - 1]? else none with
  | none => ""
  | some line =>
    let before :=
      match if 1 < number then lines[number - 2]? else none with
      | some previous => numberedLine (number - 1) previous
      | none => ""
    let after :=
      match lines[number]? with
      | none | some [] => ""
      | some next => numberedLine (number + 1) next
    before ++ numberedLine number line ++
      caretLine line (clampColumn line.length pos.column) ++ after

end FlatClosure
