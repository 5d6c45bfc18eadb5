/-
The program: carries out a command line in the working directory.

What a command does is said by `Request.script`; here each of its operations is
carried out on the files of the operating system. Log entries go to standard
error.
-/
import FlatClosure.Command.Basic

namespace FlatClosure.Command

/-- The bytes of a text. -/
def toBytes (t : Text) : ByteArray := ⟨t.toArray⟩

/-- The string of a text, as far as it is valid. -/
def toPath (t : Text) : String := (String.fromUTF8? (toBytes t)).getD ""

/-- The reason of a failed file operation. -/
def reasonOf : IO.Error → FileError.Reason
  | .noFileOrDirectory _ _ _ => .noSuchFile
  | .inappropriateType _ 20 _ => .notDirectory
  | _ => .isDirectory

/-- Reads a file of the working directory. -/
def readFile (path : Text) : IO (Except FileError Text) := do
  try
    return .ok (← IO.FS.readBinFile (toPath path)).data.toList
  catch e =>
    match reasonOf e with
    | .isDirectory => return .error ⟨.reading, path, .isDirectory⟩
    | reason => return .error ⟨.opening, path, reason⟩

/-- Writes a file of the working directory. -/
def writeFile (path content : Text) : IO (Except FileError Unit) := do
  try
    IO.FS.writeBinFile (toPath path) (toBytes content)
    return .ok ()
  catch
    | .resourceExhausted _ _ _ => return .error ⟨.writing, path, .noSpace⟩
    | e => return .error ⟨.opening, path, reasonOf e⟩

/-- Writes a text to a stream. -/
def put (stream : IO.FS.Stream) (t : Text) : IO Unit := do
  stream.write (toBytes t)
  stream.flush

/-- The microseconds that a computation takes. -/
def timed {α : Type} (compute : Unit → α) : IO (α × Nat) := do
  let start ← IO.monoNanosNow
  let result ← IO.lazyPure compute
  return (result, ((← IO.monoNanosNow) - start) / 1000)

/-- The microseconds of each stage for a source. -/
def durations (text : Text) : IO (Stage → Text) := do
  let (parsed, parsing) ← timed fun _ => text.parse
  match parsed with
  | .error _ => return fun _ => Text.ofNat parsing
  | .ok parsed =>
    let (program, conversion) ← timed fun _ => parsed.tree.toProgram
    let (_, toC) ← timed fun _ => Target.c.generate program
    let (_, toLlvm) ← timed fun _ => Target.llvm.generate program
    return fun
      | .parsing => Text.ofNat parsing
      | .conversion => Text.ofNat conversion
      | .generation .c => Text.ofNat toC
      | .generation .llvm => Text.ofNat toLlvm

/-- Writes log entries to standard error. -/
def writeLog (micros : Stage → Text) (log : List LogEntry) : IO Unit := do
  put (← IO.getStderr) (log.flatMap (LogEntry.render micros))

/-- Makes a directory whose path is `front` and a random number. -/
def makeNumbered (dir front : Text) : Nat → IO (Except FileError Text)
  | 0 => return .error ⟨.makingTemp, front ++ "*", .exists⟩
  | tries + 1 => do
    let path := front ++ Text.ofNat (← IO.rand 0 4294967295)
    try
      IO.FS.createDir (toPath path)
      return .ok path
    catch
      | .alreadyExists _ _ _ => makeNumbered dir front tries
      | .noFileOrDirectory _ _ _ => return .error ⟨.inspecting, dir, .noSuchFile⟩
      | _ => return .error ⟨.makingDirectory, path, .notDirectory⟩

/-- Copies a file of the working directory. -/
def copyFile (source target : Text) : IO (Except FileError Unit) := do
  match ← readFile source with
  | .error ⟨.opening, path, reason⟩ => return .error ⟨.opening, path, reason⟩
  | _ =>
    match ← writeFile target [] with
    | .error e => return .error e
    | .ok () =>
      match ← readFile source with
      | .error e => return .error e
      | .ok content => writeFile target content

/-- Carries out an operation. Native programs are not started. The microseconds of the
stages are those for the source that was read last. -/
def carryOut (source : Text) : (operation : Operation) → IO operation.Answer
  | .read path => readFile path
  | .write path content => writeFile path content
  | .copy source target => copyFile source target
  | .makeTemp dir stem => makeNumbered dir (Path.inside dir stem) Folder.tempTries
  | .start invocation => return .error (NativeCompiler.notFoundMessage invocation.name)
  | .print text => do
    try
      put (← IO.getStdout) text
      return .ok ()
    catch _ => return .error ⟨.writing, "/dev/stdout", .noSpace⟩
  | .log (.duration stage) => do writeLog (← durations source) [.duration stage]
  | .log entry => writeLog (fun _ => []) [entry]

/-- The source that was read last, after an operation and its answer. -/
def lastRead (source : Text) : (operation : Operation) → operation.Answer → Text
  | .read _, .ok text => text
  | _, _ => source

/-- Carries out a script. -/
def carryOutAll {ε α : Type} (source : Text) : Script ε α → IO (Except ε α)
  | .done result => return result
  | .ask operation next => do
    let answer ← carryOut source operation
    carryOutAll (lastRead source operation answer) (next answer)

/-- The environment variables that commands consult. -/
def readEnvironment : IO Environment := do
  let names := ["LAMC_CC", "LAMC_TARGET", "LAMC_VERBOSE", "TMPDIR"]
  let found ← names.filterMapM fun name => do
    return (← IO.getEnv name).map fun value => (Text.ofString name, Text.ofString value)
  return found

end FlatClosure.Command

open FlatClosure Command in
/-- The program. -/
def main (args : List String) : IO UInt32 := do
  match Reading.ofArgs (← readEnvironment) (args.map Text.ofString) with
  | .nothing => return 0
  | .unknown name =>
    writeLog (fun _ => []) [.message (unknownCommandMessage name)]
    return 3
  | .misused e =>
    writeLog (fun _ => []) [.message (CommandError.usage e).message]
    return 1
  | .request r =>
    match ← carryOutAll [] r.script with
    | .ok () => return 0
    | .error e =>
      writeLog (fun _ => []) [.message e.message]
      return 1
