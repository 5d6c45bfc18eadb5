/-
Hygiene: keeping the names of a tree apart from the names that conversion
mints.

Conversion mints `env0`, `cls1`, `_2` and so on. A tree may use names of that
shape itself; they are renamed, binders and occurrences alike, by adding
underscores until the name is new.

* `mintEnv`, `mintCode`, `mintTemp`: the minted names.
* `looksMinted`: whether a name has the shape of a minted one.
* `Tree.freshNames`: the new names of the minted names of a tree, assigned in
  bytewise order.
* `Tree.hygienic`: the renamed tree.
-/
import FlatClosure.Tree.Basic

namespace FlatClosure

/-! ### Minted names -/

/-- The name of an environment parameter. -/
def mintEnv (i : Nat) : Text := "env" ++ Text.ofNat i

/-- The name of a declaration. -/
def mintCode (i : Nat) : Text := "cls" ++ Text.ofNat i

/-- The name of a temporary. -/
def mintTemp (i : Nat) : Text := "_" ++ Text.ofNat i

/-- What minted names begin with. -/
def mintedStems : List Text := ["env", "cls", "_"]

/-- Whether a name is one of the stems followed by digits. -/
def looksMinted (name : Text) : Bool :=
  mintedStems.any fun stem =>
    match stem.isPrefixOf? name with
    | some digits => !digits.isEmpty && digits.all Text.isDigit
    | none => false

/-! ### Names of a tree -/

/-- Bytewise order of texts. -/
def Text.precedes : Text → Text → Bool
  | _, [] => false
  | [], _ :: _ => true
  | a :: s, b :: t => a < b || (a == b && Text.precedes s t)

/-- A name at its place in a list that increases bytewise; a name that is there
already is not repeated. -/
def insertSorted (name : Text) : List Text → List Text
  | [] => [name]
  | other :: rest =>
    if name = other then other :: rest
    else if Text.precedes name other then name :: other :: rest
    else other :: insertSorted name rest

namespace Tree

/-- All names of a tree, bound and free, with repeats. -/
def names : Tree → List Text
  | num _ => []
  | var name => [name]
  | lam param body => param :: body.names
  | app func arg => func.names ++ arg.names
  | letIn name bind body => name :: (bind.names ++ body.names)

/-- The minted names of a tree in bytewise order, without repeats. -/
def mintedNames (t : Tree) : List Text :=
  (t.names.filter looksMinted).foldr insertSorted []

/-- The tree with every name, at binders and at occurrences, replaced. -/
def rename (r : Text → Text) : Tree → Tree
  | num value => num value
  | var name => var (r name)
  | lam param body => lam (r param) (body.rename r)
  | app func arg => app (func.rename r) (arg.rename r)
  | letIn name bind body => letIn (r name) (bind.rename r) (body.rename r)

end Tree

/-! ### New names -/

/-- The first of `candidate`, `candidate_`, `candidate__`, … that is not in
use, after at most `tries` that are. -/
def lengthen (used : List Text) : (tries : Nat) → (candidate : Text) → Text
  | 0, candidate => candidate
  | tries + 1, candidate =>
    if used.contains candidate then lengthen used tries (candidate ++ "_") else candidate

/-- A name not in use: the given one with underscores. Of one candidate more
than there are names in use, one is new. -/
def freshName (used : List Text) (name : Text) : Text :=
  lengthen used used.length (name ++ "_")

/-- New names for a list of names, one after the other. -/
def assignFresh (used : List Text) : List Text → List (Text × Text)
  | [] => []
  | name :: rest =>
    let fresh := freshName used name
    (name, fresh) :: assignFresh (fresh :: used) rest

namespace Tree

/-- The minted names of a tree with their new names. -/
def freshNames (t : Tree) : List (Text × Text) := assignFresh t.names t.mintedNames

/-- Whether a tree uses no minted name, so that nothing has to be renamed. -/
def isHygienic (t : Tree) : Bool := t.mintedNames.isEmpty

/-- The tree with its minted names renamed. -/
def hygienic (t : Tree) : Tree :=
  t.rename fun name => (t.freshNames.lookup name).getD name

end Tree

end FlatClosure
