/-
Faults: the ways in which a hand-made tree or program can be malformed.

Everything that is scanned, parsed and converted is well formed. Trees and
programs that come from elsewhere need not be: nodes can be missing, a program
can lack its entry, a name can be used where it is not bound. A function that
meets such a place stops with a `Fault`.
-/
import FlatClosure.Text.Quoted

namespace FlatClosure

/-- What is wrong with a malformed tree or program. -/
inductive Fault where
  /-- A node of a tree is missing. -/
  | missingTree
  /-- A node of an expression is missing. -/
  | missingExpr
  /-- A top-level item of a program is missing. -/
  | missingItem
  /-- The program is empty. -/
  | noEntry
  /-- The last item of the program is not its entry. -/
  | entryNotLast
  /-- An environment is read outside the declaration that receives it. -/
  | foreignEnvironment (env : Text)
  /-- A name is read where it is not bound. -/
  | unboundReference (name : Text)
  /-- A name is applied where it is not bound. -/
  | unboundCallee (name : Text)
  /-- A closure is built over a function that is not declared. -/
  | undeclaredFunction (name : Text)
  /-- No generator writes this target. -/
  | noGenerator (target : Text)
  deriving DecidableEq, Inhabited

/-- The message of a fault. -/
def Fault.message : Fault → Text
  | missingTree => "Tree node has invalid static type."
  | missingExpr => "Expression node has invalid static type."
  | missingItem => "Top-level node has invalid static type."
  | noEntry => "Program has no entry point."
  | entryNotLast => "Program does not end with its entry point."
  | foreignEnvironment env => "Environment read from `" ++ env ++ "` outside its declaration."
  | unboundReference name =>
    "Reference to `" ++ name ++ "` is not bound in the generated function."
  | unboundCallee name =>
    "Applied closure `" ++ name ++ "` is not bound in the generated function."
  | undeclaredFunction name => "Closure over undeclared function `" ++ name ++ "`."
  | noGenerator target => "Target " ++ Text.quote target ++ " has no code generator."

end FlatClosure
