/-
Closure conversion: from a tree to a flat program.

Every function of the tree becomes a declaration. Its free names, in the order
of their first occurrence, are the slots of its environment, and what is left
in its place builds a closure that captures them. An application binds its
callee to a temporary first, so that the callee is evaluated before the
argument.

* `Tree.convert`: declarations and residual expression of a tree, numbering
  minted names from a given number on. The declarations stand in an order in
  which the code of a closure comes before the code that builds it.
* `Tree.toProgram`: the program of a tree, after hygiene.
-/
import FlatClosure.Program.Substitute
import FlatClosure.Tree.FreeVars
import FlatClosure.Tree.Hygiene

namespace FlatClosure

/-- The result of converting a tree. -/
structure Converted where
  /-- The functions of the tree. -/
  decls : List Decl
  /-- What is left of the tree. -/
  expr : Expr
  /-- The number the next minted name will have. -/
  next : Nat

/-- Each captured name replaced by its slot. -/
def slots (env : Text) (captured : Names) : Subst :=
  captured.zipIdx.map fun (name, i) => (name, .slot env i)

namespace Tree

/-- Declarations and residual expression of a tree. -/
def convert (next : Nat) : Tree → Converted
  | num value => ⟨[], .num value, next⟩
  | var name => ⟨[], .ref name, next⟩
  | lam param body =>
    let env := mintEnv next
    let code := mintCode (next + 1)
    let captured := (lam param body).free
    let inner := body.convert (next + 2)
    let decl : Decl :=
      ⟨captured.length, code, env, param, inner.expr.substitute (slots env captured)⟩
    ⟨inner.decls ++ [decl], .closure code (captured.map .ref), inner.next⟩
  | app func arg =>
    let callee := func.convert next
    let temp := mintTemp callee.next
    let argument := arg.convert (callee.next + 1)
    ⟨callee.decls ++ argument.decls,
      .letIn temp callee.expr (.app temp argument.expr), argument.next⟩
  | letIn name bind body =>
    let bound := bind.convert next
    let rest := body.convert bound.next
    ⟨bound.decls ++ rest.decls, .letIn name bound.expr rest.expr, rest.next⟩

/-- The flat program of a tree. -/
def toProgram (t : Tree) : Program :=
  let converted := t.hygienic.convert 0
  converted.decls.map .decl ++ [.main converted.expr]

end Tree

end FlatClosure
