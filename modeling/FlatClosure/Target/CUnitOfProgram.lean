/-
C source of a flat program.

All bindings of a declaration become locals of one C function, which share one
scope with its parameters. Each binder gets an identifier that differs from
those already declared, from the names of the declarations and from the names
that C or the support code reserve; a counter per function supplies suffixes.

* `reservedWords`: the identifiers that are never declared.
* `Locals`: the identifiers of one function; `Locals.declare` picks the next.
* `Expr.toC`: statements and value of an expression. The statements that an
  argument or a captured value needs stand before the expression that uses it.
* `Program.toC`: the source file of a program. A name that is not bound is
  written as it is.
-/
import FlatClosure.Program.Basic
import FlatClosure.Target.CUnit

namespace FlatClosure

/-- Keywords of C, and identifiers that the support code or the generated code
uses. -/
def reservedWords : List Text := List.map Text.ofString [
  "auto", "break", "case", "char", "const", "continue", "default", "do", "double", "else",
  "enum", "extern", "float", "for", "goto", "if", "inline", "int", "long", "register",
  "restrict", "return", "short", "signed", "sizeof", "static", "struct", "switch",
  "typedef", "union", "unsigned", "void", "volatile", "while", "_Bool", "_Complex",
  "_Imaginary", "bool", "true", "false",
  "main", "val", "val_t", "val_tag", "CLOSURE_T", "INT_T", "build_cls", "build_int",
  "print_val", "destroy_val", "malloc", "memcpy", "NULL", "VAL_H"]

/-! ### Identifiers of a function -/

/-- The identifiers of one C function. -/
structure Locals where
  /-- The names of the declarations of the program. -/
  globals : List Text
  /-- The identifiers declared so far. -/
  declared : List Text
  /-- The last suffix that was tried. -/
  suffix : Nat

namespace Locals

/-- The identifiers of a function in which nothing is declared. -/
def empty (globals : List Text) : Locals := ⟨globals, [], 0⟩

/-- Whether an identifier must not be declared. -/
def taken (l : Locals) (name : Text) : Bool :=
  reservedWords.contains name || l.globals.contains name || l.declared.contains name

/-- The first identifier that is not taken among `candidate` and the suffixed
forms of `name` with the numbers after `suffix`, with the last suffix tried;
after at most `tries` that are taken. -/
def search (l : Locals) (name : Text) :
    (tries suffix : Nat) → (candidate : Text) → Text × Nat
  | 0, suffix, candidate => (candidate, suffix)
  | tries + 1, suffix, candidate =>
    if l.taken candidate then
      l.search name tries (suffix + 1) (name ++ "_" ++ Text.ofNat (suffix + 1))
    else (candidate, suffix)

/-- The identifier for a newly bound name. Of one candidate more than there are
identifiers to avoid, one is not taken. -/
def declare (l : Locals) (name : Text) : Text × Locals :=
  let tries := reservedWords.length + l.globals.length + l.declared.length
  let (chosen, suffix) := l.search name tries l.suffix name
  (chosen, { l with declared := chosen :: l.declared, suffix })

end Locals

/-! ### Expressions and functions -/

/-- The identifiers of bound names, the innermost binder first. -/
abbrev Bindings := List (Text × Text)

/-- The identifier of a name; a name that is not bound stands for itself. -/
def Bindings.identifier (scope : Bindings) (name : Text) : Text :=
  (scope.lookup name).getD name

namespace Expr

mutual

/-- Statements and value of an expression, and the identifiers after it. -/
def toC (envs scope : Bindings) (l : Locals) : Expr → Except Fault (CBody × Locals)
  | num value => .ok (⟨[], .int value⟩, l)
  | ref name => .ok (⟨[], .read (scope.identifier name)⟩, l)
  | slot env index =>
    match envs.lookup env with
    | none => .error (.foreignEnvironment env)
    | some identifier => .ok (⟨[], .slot identifier index⟩, l)
  | app func arg => do
    let (argument, l) ← arg.toC envs scope l
    return (⟨argument.stmts, .call (scope.identifier func) argument.value⟩, l)
  | closure func captured => do
    let (stmts, values, l) ← toCAll envs scope l captured
    return (⟨stmts, .closure func values⟩, l)
  | letIn name bind body => do
    let (identifier, l) := l.declare name
    let (bound, l) ← bind.toC envs scope l
    let (rest, l) ← body.toC envs ((name, identifier) :: scope) l
    let stmts :=
      .declare identifier :: bound.stmts ++ .assign identifier bound.value :: rest.stmts
    return (⟨stmts, rest.value⟩, l)
  | missing => .error .missingExpr

/-- Statements and values of expressions from left to right. -/
def toCAll (envs scope : Bindings) (l : Locals) :
    List Expr → Except Fault (List CStmt × List CExpr × Locals)
  | [] => .ok ([], [], l)
  | e :: es => do
    let (first, l) ← e.toC envs scope l
    let (stmts, values, l) ← toCAll envs scope l es
    return (first.stmts ++ stmts, first.value :: values, l)

end

end Expr

/-- The C function of a top-level item. -/
def Item.toC (globals : List Text) : Item → Except Fault CItem
  | decl d => do
    let (env, l) := (Locals.empty globals).declare d.env
    let (arg, l) := l.declare d.arg
    let (body, _) ← d.body.toC [(d.env, env)] [(d.arg, arg)] l
    return .function d.name env arg body
  | main e => do
    let (body, _) ← e.toC [] [] (.empty globals)
    return .main body
  | missing => .error .missingItem

/-- The C source file of a program. -/
def Program.toC (p : Program) : Except Fault CUnit := do
  let _ ← p.entry
  p.mapM (Item.toC (p.decls.map Decl.name))

end FlatClosure
