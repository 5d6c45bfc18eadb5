/-
Partial trees: trees some of whose nodes may be missing.

* `PartialTree.complete?`: the tree, if no node is missing.
* `PartialTree.sameAs`: structural comparison. It walks along the first tree
  and stops at the first difference, so a missing node of the first tree is a
  fault only if the comparison gets there; a missing node of the second tree is
  just a difference.
-/
import FlatClosure.Fault
import FlatClosure.Tree.Basic

namespace FlatClosure

/-- A tree in which nodes may be missing. -/
inductive PartialTree where
  | missing
  | num (value : Int64)
  | var (name : Text)
  | lam (param : Text) (body : PartialTree)
  | app (func arg : PartialTree)
  | letIn (name : Text) (bind body : PartialTree)
  deriving Inhabited

namespace PartialTree

/-- The tree, if no node is missing. -/
def complete? : PartialTree → Option Tree
  | missing => none
  | num value => some (.num value)
  | var name => some (.var name)
  | lam param body => do return .lam param (← body.complete?)
  | app func arg => do return .app (← func.complete?) (← arg.complete?)
  | letIn name bind body => do return .letIn name (← bind.complete?) (← body.complete?)

/-- The tree, or the fault of a missing node. -/
def complete (t : PartialTree) : Except Fault Tree :=
  match t.complete? with
  | some tree => .ok tree
  | none => .error .missingTree

/-- Whether two trees are structurally equal. -/
def sameAs : PartialTree → PartialTree → Except Fault Bool
  | missing, _ => .error .missingTree
  | num v, num w => .ok (v == w)
  | var x, var y => .ok (x == y)
  | lam x s, lam y t => if x == y then s.sameAs t else .ok false
  | app f a, app g b => do if ← f.sameAs g then a.sameAs b else return false
  | letIn x a s, letIn y b t =>
    if x == y then do if ← a.sameAs b then s.sameAs t else return false else .ok false
  | _, _ => .ok false

end PartialTree

end FlatClosure
