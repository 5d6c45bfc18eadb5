/-
C source files as data.

The functions that are generated use few forms: declarations and assignments of
locals, and expressions that build integers and closures, read locals and
environment slots, and call closures through their code pointer.

* `CExpr`, `CStmt`, `CBody`: expressions, statements, and statements followed
  by the expression that is returned or printed.
* `CItem`: a function over an environment and an argument, or the entry.
* `CUnit.render`: the text of a source file, opened by `CUnit.opening`.
-/
import FlatClosure.Text.Basic

namespace FlatClosure

/-- A C expression of type `val_t *`. -/
inductive CExpr where
  /-- `build_int(value)` -/
  | int (value : Int64)
  /-- A local or a parameter. -/
  | read (name : Text)
  /-- `env[index]` -/
  | slot (env : Text) (index : Int)
  /-- `callee->c.code(callee->c.env, arg)` -/
  | call (callee : Text) (arg : CExpr)
  /-- `build_cls` of a function and a heap copy of the captured values. -/
  | closure (func : Text) (captured : List CExpr)
  deriving Inhabited

/-- A C statement. -/
inductive CStmt where
  /-- `val_t *name;` -/
  | declare (name : Text)
  /-- `name = value;` -/
  | assign (name : Text) (value : CExpr)
  deriving Inhabited

/-- Statements and the value that they prepare. -/
structure CBody where
  stmts : List CStmt
  value : CExpr
  deriving Inhabited

/-- A function definition. -/
inductive CItem where
  /-- A function that returns the value of its body. -/
  | function (name env arg : Text) (body : CBody)
  /-- The entry, which prints the value of its body. -/
  | main (body : CBody)
  deriving Inhabited

/-- A source file: its function definitions in order. -/
abbrev CUnit := List CItem

/-! ### Text -/

mutual

/-- The text of an expression. -/
def CExpr.render : CExpr → Text
  | .int value => "build_int(" ++ Text.ofInt value.toInt ++ ")"
  | .read name => name
  | .slot env index => env ++ "[" ++ Text.ofInt index ++ "]"
  | .call callee arg => callee ++ "->c.code(" ++ callee ++ "->c.env, " ++ arg.render ++ ")"
  | .closure func [] => "build_cls(" ++ func ++ ", NULL)"
  | .closure func (e :: es) =>
    let size : Text := "sizeof(val_t *) * " ++ Text.ofNat (es.length + 1)
    "build_cls(" ++ func ++ ", memcpy(malloc(" ++ size ++ "), (val_t *[])\x7b" ++
      Text.join ", " (e.render :: CExpr.renderAll es) ++ "\x7d, " ++ size ++ "))"

/-- The texts of expressions. -/
def CExpr.renderAll : List CExpr → List Text
  | [] => []
  | e :: es => e.render :: CExpr.renderAll es

end

/-- The line of a statement. -/
def CStmt.render : CStmt → Text
  | declare name => "\tval_t *" ++ name ++ ";\n"
  | assign name value => "\t" ++ name ++ " = " ++ value.render ++ ";\n"

/-- The lines of the statements of a body. -/
def CBody.renderStmts (body : CBody) : Text := body.stmts.flatMap CStmt.render

/-- The text of a function definition. -/
def CItem.render : CItem → Text
  | function name env arg body =>
    "val_t *" ++ name ++ "(val_t **" ++ env ++ ", val_t *" ++ arg ++ ") \x7b\n" ++
      body.renderStmts ++ "\treturn " ++ body.value.render ++ ";\n\x7d"
  | main body =>
    "int main(void) \x7b\n" ++ body.renderStmts ++
      "\tprint_val(" ++ body.value.render ++ ");\n\treturn 0;\n\x7d"

namespace CUnit

/-- The header that declares the support functions. -/
def headerFile : Text := "driver.h"

/-- The lines that open every source file. -/
def opening : Text :=
  "#include \"" ++ headerFile ++ "\"\n#include <stdlib.h>\n#include <string.h>"

/-- The text of a source file. -/
def render (unit : CUnit) : Text :=
  Text.join "\n\n" (opening :: unit.map CItem.render) ++ "\n"

end CUnit

end FlatClosure
