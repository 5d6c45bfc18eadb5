/-
Dumps: tokens, trees and programs as nested records.

* `Dump`: values, fields, records and lists; `Dump.render` writes one field or
  element a line, indented by two blanks a level. A record without fields still
  takes two lines, a list without elements takes none of its own.
* `dumpTokens`, `Tree.dump`, `dumpProgram`: a field whose value is zero or
  empty is left out, other than a list or a record.
-/
import FlatClosure.Program.Basic
import FlatClosure.Token.Basic
import FlatClosure.Tree.Basic

namespace FlatClosure

/-- A value to be dumped. -/
inductive Dump where
  | atom (text : Text)
  | field (name : Text) (value : Dump)
  | record (head : Text) (fields : List Dump)
  | list (head : Text) (elements : List Dump)
  deriving Inhabited

namespace Dump

/-- The blanks at the start of a line. -/
def indent (depth : Nat) : Text := List.replicate (2 * depth) 32

mutual

/-- The text of a value whose line is indented by `depth` levels. -/
def render (depth : Nat) : Dump → Text
  | atom text => text
  | field name value => name ++ ": " ++ value.render depth
  | record head fields =>
    head ++ "\x7b\n" ++ renderLines (depth + 1) fields ++ indent depth ++ "\x7d"
  | list head [] => head ++ "\x7b\x7d"
  | list head (e :: es) =>
    head ++ "\x7b\n" ++ indent (depth + 1) ++ e.render (depth + 1) ++ ",\n" ++
      renderLines (depth + 1) es ++ indent depth ++ "\x7d"

/-- The lines of fields or elements. -/
def renderLines (depth : Nat) : List Dump → Text
  | [] => ""
  | e :: es => indent depth ++ e.render depth ++ ",\n" ++ renderLines depth es

end

/-- A number field, left out when it is zero. -/
def number (name : Text) (value : Int) : List Dump :=
  if value = 0 then [] else [field name (atom (Text.ofInt value))]

/-- A text field, left out when it is empty. -/
def text (name : Text) (value : Text) : List Dump :=
  if value = [] then [] else [field name (atom (Text.quote value))]

end Dump

open Dump

/-! ### Tokens -/

/-- The dump of a position. -/
def Pos.dump (p : Pos) : Dump :=
  .record "token.Pos" (number "Line" p.line ++ number "Column" p.column)

/-- The dump of a token. -/
def Token.dump (t : Token) : Dump :=
  let kind : List Dump :=
    if t.kind = .number then [] else
      [.field "Type" (.atom ("token.TokenType(" ++ t.kind.name ++ ")"))]
  .record "" (text "Lexeme" t.lexeme ++ kind ++ [.field "Pos" t.pos.dump] ++
    number "Value" t.value.toInt)

/-- The dump of tokens. -/
def dumpTokens (ts : List Token) : Dump := .list "[]token.Token" (ts.map Token.dump)

/-! ### Trees -/

/-- The dump of a tree. -/
def Tree.dump : Tree → Dump
  | .num value => .record "&ast.Num" (number "Value" value.toInt)
  | .var name => .record "&ast.Var" (text "Name" name)
  | .lam param body => .record "&ast.Lam" (text "Param" param ++ [.field "Body" body.dump])
  | .app func arg => .record "&ast.App" [.field "Func" func.dump, .field "Argm" arg.dump]
  | .letIn name bind body =>
    .record "&ast.Let" (text "Name" name ++ [.field "Bind" bind.dump, .field "Body" body.dump])

/-! ### Programs -/

mutual

/-- The dump of an expression. -/
def Expr.dump : Expr → Dump
  | .num value => .record "&ir.Num" (number "Value" value.toInt)
  | .ref name => .record "&ir.Ref" (text "Name" name)
  | .slot env index => .record "&ir.Idx" (text "Env" env ++ number "Index" index)
  | .app func arg => .record "&ir.App" (text "Func" func ++ [.field "Argm" arg.dump])
  | .closure func captured =>
    .record "&ir.Cls"
      (text "Func" func ++ [.field "Captured" (.list "[]ir.Expr" (Expr.dumpAll captured))])
  | .letIn name bind body =>
    .record "&ir.Let" (text "Name" name ++ [.field "Bind" bind.dump, .field "Body" body.dump])
  | .missing => .atom "nil"

/-- The dumps of expressions. -/
def Expr.dumpAll : List Expr → List Dump
  | [] => []
  | e :: es => e.dump :: Expr.dumpAll es

end

/-- The dump of a top-level item. -/
def Item.dump : Item → Dump
  | decl d =>
    .record "&ir.Decl" (number "FreeCount" d.slotCount ++ text "Name" d.name ++
      text "EnvParam" d.env ++ text "ArgParam" d.arg ++ [.field "Body" d.body.dump])
  | main e => .record "&ir.Main" [.field "Expr" e.dump]
  | missing => .atom "nil"

/-- The dump of a program. -/
def dumpProgram (p : Program) : Dump := .list "ir.Prog" (p.map Item.dump)

end FlatClosure
