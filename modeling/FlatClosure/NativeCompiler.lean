/-
The native compiler that turns generated sources into executables.

* `defaultName`: the compiler when none is named.
* `Invocation`, `invocation`: the command line that builds an executable from a
  generated source and the support source, and the directory it starts in.
* `notFoundMessage`: a program that is not installed cannot be started.
-/
import FlatClosure.Files.Path
import FlatClosure.Text.Quoted

namespace FlatClosure.NativeCompiler

/-- The compiler when none is named. -/
def defaultName : Text := "cc"

/-- The compiler that an empty name stands for, or the one named. -/
def nameOrDefault (cc : Text) : Text := if cc.isEmpty then defaultName else cc

/-- A command line and the directory it starts in. -/
structure Invocation where
  args : List Text
  dir : Text
  deriving DecidableEq, Inhabited

/-- The name of the program to start. -/
def Invocation.name (invocation : Invocation) : Text := invocation.args.headD []

/-- The command line that compiles a source together with the support source.
It starts in the directory of the source. -/
def invocation (cc source support out : Text) : Invocation :=
  ⟨[nameOrDefault cc, "-o", out, source, support], Path.parent source⟩

/-- The message for a program that does not exist. One with a slash in its name is
not searched for. -/
def notFoundMessage (name : Text) : Text :=
  if name.contains Path.slash then "fork/exec " ++ name ++ ": no such file or directory"
  else "exec: " ++ Text.quote name ++ ": executable file not found in $PATH"

end FlatClosure.NativeCompiler
