/-
Targets: the languages in which a program can be written out.

* `Target`, `Target.name`, `Target.ofName?`.
* `Target.parse`: reading a target in any case.
* `Target.extension`: the file name extension of a target.
* `Target.generate`: the text of a program in the target.
-/
import FlatClosure.Target.CUnitOfProgram
import FlatClosure.Target.SsaModuleOfProgram

namespace FlatClosure

/-- A language to generate. -/
inductive Target where
  | c
  | llvm
  deriving DecidableEq, Inhabited

namespace Target

/-- The name of a target. -/
def name : Target → Text
  | c => "c"
  | llvm => "llvm"

/-- The target with exactly this name. -/
def ofName? (name : Text) : Option Target :=
  if name = Target.c.name then some .c
  else if name = Target.llvm.name then some .llvm
  else none

/-- The message for a name that is no target in any case. -/
def unknownMessage (name : Text) : Text :=
  "unknown target " ++ Text.quote name ++ " (expected " ++ Text.quote Target.c.name ++
    " or " ++ Text.quote Target.llvm.name ++ ")"

/-- The target with this name, upper and lower case alike, or a message. -/
def parse (name : Text) : Except Text Target :=
  match ofName? name.toLower with
  | some target => .ok target
  | none => .error (unknownMessage name)

/-- The extension of files in the named target; that of C for names of no
target. -/
def extension (name : Text) : Text :=
  if name = Target.llvm.name then ".ll" else ".c"

/-- The text of a program in the target. -/
def generate (target : Target) (p : Program) : Except Fault Text :=
  match target with
  | c => p.toC.map CUnit.render
  | llvm => p.toSsa.map SsaModule.render

/-- The text of a program in the target with exactly this name. -/
def generateNamed (name : Text) (p : Program) : Except Fault Text :=
  match ofName? name with
  | some target => target.generate p
  | none => .error (.noGenerator name)

end Target

end FlatClosure
