/-
Paths as text: components separated by slashes.

* `Path.components`: the pieces between slashes; `Path.named`: up to a slash at
  the end.
* `Path.clean`: the shortest path with the same meaning when `..` undoes the
  component before it.
* `Path.join`, `Path.parent`: cleaned paths of a file in a directory and of the
  directory of a file; `Path.inside`: the path of a file in a directory as it is.
-/
import FlatClosure.Text.Basic

namespace FlatClosure.Path

/-- The byte between components. -/
def slash : UInt8 := 47

/-- The pieces between slashes; empty ones come from repeated, leading and
trailing slashes. -/
def components (path : Text) : List Text := Text.splitOn slash path

/-- The components without the empty ones at the end. -/
def named (path : Text) : List Text := ((components path).reverse.dropWhile List.isEmpty).reverse

/-- Whether a path starts at the root of all files. -/
def isRooted (path : Text) : Bool := path.head? == some slash

/-- The components of a cleaned path, the last first, given those before it.
Nothing lies above the root. -/
def cleanComponents (rooted : Bool) : (done : List Text) → List Text → List Text
  | done, [] => done
  | done, c :: rest =>
    if c = [] ∨ c = ("." : Text) then cleanComponents rooted done rest
    else if c = (".." : Text) then
      match done with
      | [] => cleanComponents rooted (if rooted then [] else [c]) rest
      | last :: before =>
        if last = (".." : Text) then cleanComponents rooted (c :: done) rest
        else cleanComponents rooted before rest
    else cleanComponents rooted (c :: done) rest

/-- The shortest path with the same meaning. -/
def clean (path : Text) : Text :=
  let rooted := isRooted path
  let body := Text.join "/" (cleanComponents rooted [] (components path)).reverse
  if rooted then "/" ++ body else if body.isEmpty then "." else body

/-- The cleaned path of a file in a directory. -/
def join (dir file : Text) : Text :=
  if dir.isEmpty then clean file else clean (dir ++ "/" ++ file)

/-- The path of a file in a directory, with one slash between them. -/
def inside (dir file : Text) : Text :=
  if dir.getLast? = some slash then dir ++ file else dir ++ "/" ++ file

/-- The cleaned path of the directory of a file. -/
def parent (path : Text) : Text :=
  clean (Text.join "/" ((components path).dropLast ++ [[]]))

end FlatClosure.Path
