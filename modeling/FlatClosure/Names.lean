/-
Names and scopes.

* `Names`: names in the order in which they were first met; `Names.add` leaves
  a name that is already there in its place.
* `Scope`: the names bound around a place, the innermost first.
* `Names.reference`: what a reference adds to the free names found so far.
-/
import FlatClosure.Text.Basic

namespace FlatClosure

/-- A list of names in the order of their discovery. -/
abbrev Names := List Text

namespace Names

/-- The names with one more at the end, unless it is already among them. -/
def add (names : Names) (name : Text) : Names :=
  if names.contains name then names else names ++ [name]

/-- The position of the first occurrence of a name. -/
def position? (names : Names) (name : Text) : Option Nat := names.idxOf? name

end Names

/-- The names bound around a place, the innermost first. -/
abbrev Scope := List Text

namespace Scope

/-- The scope of a place below a binder of `name`. -/
def declare (scope : Scope) (name : Text) : Scope := name :: scope

/-- The scope around the innermost binder. -/
def leave (scope : Scope) : Scope := scope.tail

/-- Whether a name is bound. -/
def binds (scope : Scope) (name : Text) : Bool := scope.contains name

end Scope

/-- The free names after a reference to `name` from inside `scope`. -/
def Names.reference (found : Names) (scope : Scope) (name : Text) : Names :=
  if scope.binds name then found else found.add name

end FlatClosure
