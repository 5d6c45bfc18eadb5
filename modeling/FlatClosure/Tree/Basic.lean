/-
Trees: the surface syntax of the language.

* `Tree`: numerals, variables, one-parameter functions, applications and
  bindings.
* `Tree.render`: the tree as source text. A callee stands in parentheses only
  when it is a function or a binding, since a call suffix would otherwise be
  read as part of its body.
-/
import FlatClosure.Text.Basic

namespace FlatClosure

/-- An expression of the surface language. -/
inductive Tree where
  | num (value : Int64)
  | var (name : Text)
  | lam (param : Text) (body : Tree)
  | app (func arg : Tree)
  | letIn (name : Text) (bind body : Tree)
  deriving DecidableEq, Inhabited

namespace Tree

/-- Whether the tree needs parentheses to be called. -/
def isOpenEnded : Tree → Bool
  | lam _ _ | letIn _ _ _ => true
  | _ => false

/-- The tree as source text. -/
def render : Tree → Text
  | num value => Text.ofInt value.toInt
  | var name => name
  | lam param body => "fun " ++ param ++ " => " ++ body.render
  | app func arg =>
    let callee := if func.isOpenEnded then "(" ++ func.render ++ ")" else func.render
    callee ++ "(" ++ arg.render ++ ")"
  | letIn name bind body => "let " ++ name ++ " = " ++ bind.render ++ "; " ++ body.render

end Tree

end FlatClosure
