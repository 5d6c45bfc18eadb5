/-
Free names of an expression, in the order of their first free occurrence.

A slot refers to its environment, an application to the name that it applies
before its argument, a closure to what it captures but not to the function that
it names.

* `Expr.collectFree`: one walk with the scope of each place and the names found
  so far.
* `Expr.free`: the free names of a whole expression.
-/
import FlatClosure.Names
import FlatClosure.Program.Basic

namespace FlatClosure.Expr

mutual

/-- The names found so far and those free in an expression that stands in
`scope`. -/
def collectFree (scope : Scope) (found : Names) : Expr → Names
  | num _ => found
  | ref name => found.reference scope name
  | slot env _ => found.reference scope env
  | app func arg => arg.collectFree scope (found.reference scope func)
  | closure _ captured => collectFreeAll scope found captured
  | letIn name bind body =>
    body.collectFree (scope.declare name) (bind.collectFree scope found)
  | missing => found

/-- The names found so far and those free in the expressions. -/
def collectFreeAll (scope : Scope) (found : Names) : List Expr → Names
  | [] => found
  | e :: es => collectFreeAll scope (e.collectFree scope found) es

end

/-- The free names of an expression. -/
def free (e : Expr) : Names := e.collectFree [] []

end FlatClosure.Expr
