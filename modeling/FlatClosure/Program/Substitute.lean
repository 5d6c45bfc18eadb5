/-
Substitution of expressions for names.

* `Subst`: replacements for names; `Subst.without` drops one name.
* `Expr.substitute`: replaces the references to the names of a substitution,
  except below a binding of the same name. The names that applications apply
  are not references in this sense and stay.
-/
import FlatClosure.Program.Basic

namespace FlatClosure

/-- Replacements for names. -/
abbrev Subst := List (Text × Expr)

/-- The substitution without the replacement of one name. -/
def Subst.without (m : Subst) (name : Text) : Subst := m.filter (·.1 != name)

namespace Expr

mutual

/-- The expression with every reference that is not shadowed replaced. -/
def substitute (m : Subst) : Expr → Expr
  | num value => num value
  | ref name => (m.lookup name).getD (ref name)
  | slot env index => slot env index
  | app func arg => app func (arg.substitute m)
  | closure func captured => closure func (substituteAll m captured)
  | letIn name bind body => letIn name (bind.substitute m) (body.substitute (m.without name))
  | missing => missing

/-- The expressions with every reference that is not shadowed replaced. -/
def substituteAll (m : Subst) : List Expr → List Expr
  | [] => []
  | e :: es => e.substitute m :: substituteAll m es

end

end Expr

end FlatClosure
