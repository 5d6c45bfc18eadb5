/-
Free names of a tree, in the order of their first free occurrence.

* `Tree.collectFree`: one walk from left to right with the scope of each place
  and the names found so far. The bound expression of a binding is outside the
  scope of its name.
* `Tree.free`: the free names of a whole tree.
-/
import FlatClosure.Names
import FlatClosure.Tree.Basic

namespace FlatClosure.Tree

/-- The names found so far and those free in a tree that stands in `scope`. -/
def collectFree (scope : Scope) (found : Names) : Tree → Names
  | num _ => found
  | var name => found.reference scope name
  | lam param body => body.collectFree (scope.declare param) found
  | app func arg => arg.collectFree scope (func.collectFree scope found)
  | letIn name bind body =>
    body.collectFree (scope.declare name) (bind.collectFree scope found)

/-- The free names of a tree. -/
def free (t : Tree) : Names := t.collectFree [] []

end FlatClosure.Tree
