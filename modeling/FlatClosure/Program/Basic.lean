/-
Flat programs: functions without nested functions, over explicit environments.

* `Expr`: expressions in which a closure is built from the name of a declared
  function and the values that it captures, and a captured value is read from a
  slot of an environment. In an expression that is handed over from elsewhere a
  node may be missing.
* `Decl`: a function that receives its captured values through one parameter
  and its argument through another.
* `Program`: declarations and, at the end, one entry. A list that is not of
  this form is a program all the same, but has no `Program.entry`.
* `Expr.render`, `Decl.render`, `Program.render`: the readable form.
* `Expr.sameAs`: structural comparison along the first expression.
-/
import FlatClosure.Fault

namespace FlatClosure

/-! ### Expressions -/

/-- An expression of a flat program. -/
inductive Expr where
  | num (value : Int64)
  /-- Reads a local name. -/
  | ref (name : Text)
  /-- Reads a slot of an environment. -/
  | slot (env : Text) (index : Int)
  /-- Applies the closure that a local name holds. -/
  | app (func : Text) (arg : Expr)
  /-- Builds a closure over a declared function. -/
  | closure (func : Text) (captured : List Expr)
  | letIn (name : Text) (bind body : Expr)
  /-- A node that is not there. -/
  | missing
  deriving Inhabited

namespace Expr

mutual

/-- Whether no node of the expression is missing. -/
def isComplete : Expr → Bool
  | num _ | ref _ | slot _ _ => true
  | app _ arg => arg.isComplete
  | closure _ captured => allComplete captured
  | letIn _ bind body => bind.isComplete && body.isComplete
  | missing => false

/-- Whether no node of the expressions is missing. -/
def allComplete : List Expr → Bool
  | [] => true
  | e :: es => e.isComplete && allComplete es

end

/-- The expression itself, or the fault of a missing node. -/
def complete (e : Expr) : Except Fault Expr :=
  if e.isComplete then .ok e else .error .missingExpr

mutual

/-- The readable form of an expression. -/
def render : Expr → Text
  | num value => Text.ofInt value.toInt
  | ref name => name
  | slot env index => env ++ "[" ++ Text.ofInt index ++ "]"
  | app func arg => func ++ "(" ++ arg.render ++ ")"
  | closure func captured =>
    "closure(" ++ func ++ ", [" ++ Text.join ", " (renderAll captured) ++ "])"
  | letIn name bind body => "let " ++ name ++ " = " ++ bind.render ++ "; " ++ body.render
  | missing => ""

/-- The readable forms of expressions. -/
def renderAll : List Expr → List Text
  | [] => []
  | e :: es => e.render :: renderAll es

end

mutual

/-- Whether two expressions are structurally equal. A missing node of the first
is a fault if the comparison gets there; a missing node of the second is a
difference. -/
def sameAs : Expr → Expr → Except Fault Bool
  | num v, num w => .ok (v == w)
  | ref x, ref y => .ok (x == y)
  | slot x i, slot y j => .ok (x == y && i == j)
  | app f a, app g b => if f == g then a.sameAs b else .ok false
  | closure f as, closure g bs =>
    if f == g && as.length == bs.length then allSame as bs else .ok false
  | letIn x a s, letIn y b t =>
    if x == y then do if ← a.sameAs b then s.sameAs t else return false else .ok false
  | missing, _ => .error .missingExpr
  | _, _ => .ok false

/-- Whether two lists of expressions are structurally equal. -/
def allSame : List Expr → List Expr → Except Fault Bool
  | a :: as, b :: bs => do if ← a.sameAs b then allSame as bs else return false
  | [], [] => .ok true
  | _, _ => .ok false

end

end Expr

/-! ### Programs -/

/-- A function of a flat program. It receives `slotCount` captured values
through `env` and its argument through `arg`. -/
structure Decl where
  slotCount : Int
  name : Text
  env : Text
  arg : Text
  body : Expr
  deriving Inhabited

/-- The readable form of a declaration. -/
def Decl.render (d : Decl) : Text :=
  "decl " ++ d.name ++ "(" ++ d.env ++ "[" ++ Text.ofInt d.slotCount ++ "], " ++
    d.arg ++ ") = " ++ d.body.render

/-- A top-level item of a program. -/
inductive Item where
  | decl (d : Decl)
  /-- The entry: an expression whose value is printed. -/
  | main (e : Expr)
  /-- An item that is not there. -/
  | missing
  deriving Inhabited

namespace Item

/-- The readable form of an item. -/
def render : Item → Text
  | decl d => d.render
  | main e => "main = " ++ e.render
  | missing => ""

/-- The declaration that an item is, if it is one. -/
def decl? : Item → Option Decl
  | decl d => some d
  | _ => none

/-- Whether neither the item nor a node in it is missing. -/
def isComplete : Item → Bool
  | decl d => d.body.isComplete
  | main e => e.isComplete
  | missing => false

end Item

/-- A list of top-level items. -/
abbrev Program := List Item

namespace Program

/-- The readable form of a program, one item a line. -/
def render (p : Program) : Text := Text.join "\n" (p.map Item.render)

/-- The declarations in order. -/
def decls (p : Program) : List Decl := p.filterMap Item.decl?

/-- The entry: the last item has to be one. -/
def entry (p : Program) : Except Fault Expr :=
  match p.getLast? with
  | none => .error .noEntry
  | some (.main e) => .ok e
  | some _ => .error .entryNotLast

end Program

end FlatClosure
