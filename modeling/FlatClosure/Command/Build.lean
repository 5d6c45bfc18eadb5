/-
Building: from a generated source to an executable.

The source and the support files are written into a new directory, and the
native compiler is started there. What was written stays, whether or not the
compiler succeeds.

* `BuildError`: the ways to fail, with their messages.
* `buildIn`: building in a directory that exists; `build`: in a new one.
-/
import FlatClosure.Support

namespace FlatClosure.Command

/-- Why no executable was built. -/
inductive BuildError where
  | tempDirectory (e : FileError)
  | support (e : FileError)
  | source (e : FileError)
  /-- The native compiler was not found or failed. -/
  | compiler (message : Text)

/-- The message of a build error. -/
def BuildError.message : BuildError → Text
  | tempDirectory e => "create temp directory: " ++ e.message
  | support e => "write runtime: " ++ e.message
  | source e => "write generated source: " ++ e.message
  | compiler message => message

/-- What the names of the directories begin with in which executables are built. -/
def tempStem : Text := "lamc-tmp--"

/-- The name of the generated source in a target. -/
def sourceName (target : Target) : Text := "main" ++ Target.extension target.name

/-- The name of the executable. -/
def executableName : Text := "lamc-exe.out"

/-- Builds an executable from a generated source, with all files in `dir`; the path of
the executable. -/
def buildIn (cc dir : Text) (target : Target) (text : Text) : Script BuildError Text := do
  let support ← (Support.installation dir).mapError .support
  let source := Path.join dir (sourceName target)
  (Script.write source text).mapError .source
  let executable := Path.join dir executableName
  (Script.start (NativeCompiler.invocation cc source support executable)).mapError .compiler
  return executable

/-- Builds an executable in a new directory inside `tempDir`. -/
def build (cc tempDir : Text) (target : Target) (text : Text) : Script BuildError Text := do
  let dir ← (Script.makeTemp tempDir tempStem).mapError .tempDirectory
  buildIn cc dir target text

end FlatClosure.Command
