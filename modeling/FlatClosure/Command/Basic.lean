/-
The command line: what each command does.

A command gets its settings from flags, from environment variables and from
defaults, in this order. It reads one source file and then prints something,
writes one file, builds an executable, or fails with a message.

* `Action`: the commands; `Action.flags`: the flags of each.
* `CommandError`: the ways to fail, with their messages.
* `Request.script`: what a command asks for, step by step.
* `Host.execute`: a whole command line over a folder; `execute`: without native
  programs.
-/
import FlatClosure.Command.Build
import FlatClosure.Command.Flags
import FlatClosure.Compile
import FlatClosure.Dump
import FlatClosure.Machine

namespace FlatClosure.Command

/-! ### Commands and their settings -/

/-- What a command line asks for. -/
inductive Action where
  /-- Compile and execute. -/
  | run
  /-- Compile to an executable. -/
  | build
  /-- Generate the source in the target. -/
  | emit
  /-- Show a stage of the compilation. -/
  | dump
  /-- Evaluate without a native compiler. -/
  | eval
  deriving DecidableEq, Inhabited

/-- The command with this name. -/
def Action.ofName? (name : Text) : Option Action :=
  if name = ("run" : Text) then some .run
  else if name = ("build" : Text) then some .build
  else if name = ("emit" : Text) then some .emit
  else if name = ("dump" : Text) then some .dump
  else if name = ("eval" : Text) then some .eval
  else none

/-- The flags of the commands that generate a source. -/
def generatorFlags : List Flag :=
  [⟨"cc", "", false⟩, ⟨"target", "t", false⟩, ⟨"verbose", "v", true⟩]

/-- The flags of a command. -/
def Action.flags : Action → List Flag
  | run => generatorFlags
  | build | emit => ⟨"output", "o", false⟩ :: generatorFlags
  | dump => [⟨"stage", "", false⟩]
  | eval => []

/-- Environment variables with their values. -/
abbrev Environment := List (Text × Text)

/-- A command with its settings and the arguments after the flags. -/
structure Request where
  action : Action
  settings : Settings
  environment : Environment
  arguments : List Text

namespace Request

/-- The value of a setting: from a flag, else from an environment variable,
else the default. -/
def setting (r : Request) (flag envVar default : Text) : Text :=
  match r.settings.value? flag with
  | some value => value
  | none => (r.environment.lookup envVar).getD default

/-- The native compiler. -/
def compiler (r : Request) : Text := r.setting "cc" "LAMC_CC" NativeCompiler.defaultName

/-- The name of the target. -/
def target (r : Request) : Text := r.setting "target" "LAMC_TARGET" Target.c.name

/-- Whether the time of each stage is logged. -/
def verbose (r : Request) : Bool :=
  (switchValue? (r.setting "verbose" "LAMC_VERBOSE" "false")).getD false

/-- The file to write; for a generated source empty for standard output. -/
def output (r : Request) : Text :=
  (r.settings.value? "output").getD (if r.action = .build then "a.out" else "")

/-- The stage to show. -/
def stage (r : Request) : Text := (r.settings.value? "stage").getD "ir"

/-- The directory for temporary files. -/
def tempDir (r : Request) : Text :=
  match r.environment.lookup ("TMPDIR" : Text) with
  | none | some [] => "/tmp"
  | some dir => dir

end Request

/-! ### Failing -/

/-- Why a command fails. -/
inductive CommandError where
  | usage (e : UsageError)
  | tooManyArguments
  | noSource
  | unknownTarget (message : Text)
  | unreadable (e : FileError)
  /-- The source is not a program, or not one that the target can take. -/
  | source (explanation : Text)
  | malformed (fault : Fault)
  | unknownStage (stage : Text)
  | unwritable (e : FileError)
  | unbuilt (cc path : Text) (e : BuildError)
  | stopped (e : RuntimeError)
  /-- The executable that was built failed. -/
  | failed (message : Text)

/-- The message of a failing command. -/
def CommandError.message : CommandError → Text
  | usage e => e.message
  | tooManyArguments =>
    "\n\nToo many arguments provided.\n\n" ++
      "If you've provided flags make sure they go before the arguments.\n" ++
      "    Wrong: $ lamc build file.lam -o foo\n" ++
      "    Right: $ lamc build -o foo file.lam\n"
  | noSource => "Source file not provided."
  | unknownTarget message => message
  | unreadable e => "read source file: " ++ e.message
  | source explanation => explanation
  | malformed fault => fault.message
  | unknownStage stage =>
    "unknown stage " ++ Text.quote stage ++ " (expected tokens, ast, ir or pretty)"
  | unwritable e => e.message
  | unbuilt cc path e => cc ++ " failed to compile " ++ path ++ ": " ++ e.message
  | stopped e => e.message
  | failed message => message

/-! ### What commands do -/

/-- A source that is compiled, or why it is not. -/
def compileSource (source : Source) (target : Target) : Except CommandError Compiled :=
  match compile source target.name with
  | .error (.failure f) => .error (.source (f.explain source))
  | .error (.fault fault) => .error (.malformed fault)
  | .ok compiled => .ok compiled

/-- Tokens and tree of a source, or why there are none. -/
def parseSource (source : Source) : Except CommandError Parsed :=
  source.text.parse.mapError fun f => .source (f.explain source)

/-- The text of a stage. -/
def showStage (stage : Text) (parsed : Parsed) : Except CommandError Text :=
  let program := parsed.tree.toProgram
  if stage = ("tokens" : Text) then .ok ((dumpTokens parsed.tokens).render 0 ++ "\n")
  else if stage = ("ast" : Text) then .ok (parsed.tree.dump.render 0 ++ "\n")
  else if stage = ("ir" : Text) then .ok ((dumpProgram program).render 0 ++ "\n")
  else if stage = ("pretty" : Text) then .ok (program.render ++ "\n")
  else .error (.unknownStage stage)

/-- The text of the value of a source, or why it has none. -/
def evaluate (parsed : Parsed) : Except CommandError Text :=
  match parsed.tree.toProgram.run with
  | .error (.error e) => .error (.stopped e)
  | .error (.fault fault) => .error (.malformed fault)
  | .ok text => .ok text

/-- Reads a source. -/
def loadSource (path : Text) : Script CommandError Source := do
  let text ← (Script.read path).mapError .unreadable
  return ⟨path, text⟩

namespace Request

/-- The path of the source: there has to be exactly one argument. -/
def sourcePath (r : Request) : Except CommandError Text :=
  match r.arguments with
  | _ :: _ :: _ => .error .tooManyArguments
  | [] | [[]] => .error .noSource
  | [path] => .ok path

/-- Adds entries to the log if the request is a verbose one. -/
def note (r : Request) (entries : List LogEntry) : Script CommandError Unit :=
  Script.log (if r.verbose then entries else [])

/-- Compiles the source at a path. -/
def compileFile (r : Request) (path : Text) : Script CommandError (Target × Compiled) := do
  let target ← .done ((Target.parse r.target).mapError .unknownTarget)
  let source ← loadSource path
  let compiled ← .done (compileSource source target)
  r.note [.duration .parsing, .duration .conversion, .duration (.generation target)]
  return (target, compiled)

/-- Builds an executable from the source; its path. -/
def buildExecutable (r : Request) : Script CommandError Text := do
  let path ← .done r.sourcePath
  let (target, compiled) ← r.compileFile path
  let executable ← (build r.compiler r.tempDir target compiled.output).mapError
    (.unbuilt r.compiler path)
  r.note [.message ("built: " ++ executable)]
  return executable

/-- The text that the source is compiled to. -/
def generatedText (r : Request) : Script CommandError Text := do
  let path ← .done r.sourcePath
  let (_, compiled) ← r.compileFile path
  return compiled.output

/-- The text of a stage of the source. -/
def stageText (r : Request) : Script CommandError Text := do
  let path ← .done r.sourcePath
  let source ← loadSource path
  let parsed ← .done (parseSource source)
  .done (showStage r.stage parsed)

/-- The text of the value of the source. -/
def valueText (r : Request) : Script CommandError Text := do
  let path ← .done r.sourcePath
  let source ← loadSource path
  let parsed ← .done (parseSource source)
  .done (evaluate parsed)

/-- Builds an executable and runs it. -/
def runScript (r : Request) : Script CommandError Unit := do
  let executable ← r.buildExecutable
  (Script.start ⟨[executable], []⟩).mapError .failed

/-- Builds an executable and copies it to the output. -/
def buildScript (r : Request) : Script CommandError Unit := do
  let executable ← r.buildExecutable
  (Script.copy executable r.output).mapError .unwritable

/-- Generates a source, and writes it to the output if there is one. -/
def emitScript (r : Request) : Script CommandError Unit := do
  let text ← r.generatedText
  if r.output.isEmpty then (Script.print text).mapError .unwritable
  else (Script.write r.output text).mapError .unwritable

/-- Shows a stage of the source. It does not matter whether all of it is printed. -/
def dumpScript (r : Request) : Script CommandError Unit := do
  let text ← r.stageText
  let _ ← (Script.print text).attempt
  return ()

/-- Prints the value of the source. -/
def evalScript (r : Request) : Script CommandError Unit := do
  let text ← r.valueText
  (Script.print text).mapError .unwritable

/-- What a command does. -/
def script (r : Request) : Script CommandError Unit :=
  match r.action with
  | .run => r.runScript
  | .build => r.buildScript
  | .emit => r.emitScript
  | .dump => r.dumpScript
  | .eval => r.evalScript

end Request

/-! ### Command lines -/

/-- How a command line reads. -/
inductive Reading where
  /-- Nothing is asked for. -/
  | nothing
  | unknown (name : Text)
  | misused (e : UsageError)
  | request (r : Request)

/-- The reading of the arguments of the program. -/
def Reading.ofArgs (environment : Environment) : List Text → Reading
  | [] => .nothing
  | name :: rest =>
    match Action.ofName? name with
    | none => .unknown name
    | some action =>
      match Flag.parseAll action.flags [] rest with
      | .error e => .misused e
      | .ok (settings, arguments) => .request ⟨action, settings, environment, arguments⟩

/-- What a command line leaves behind. -/
structure Report extends World where
  exit : Nat

/-- The report of a script that has ended. An error is logged. -/
def Report.ofEnd : Except CommandError Unit × World → Report
  | (.ok (), world) => ⟨world, 0⟩
  | (.error e, world) => ⟨{ world with log := world.log ++ [.message e.message] }, 1⟩

/-- The message for a command that does not exist. -/
def unknownCommandMessage (name : Text) : Text := "No help topic for '" ++ name ++ "'"

/-- Carries out a command line in a folder. -/
def Host.execute (host : Host) (environment : Environment) (args : List Text)
    (folder : Folder) : Report :=
  match Reading.ofArgs environment args with
  | .nothing => ⟨.start folder, 0⟩
  | .unknown name => ⟨⟨folder, [], [.message (unknownCommandMessage name)]⟩, 3⟩
  | .misused e => .ofEnd (.error (.usage e), .start folder)
  | .request r => .ofEnd (r.script.run host (.start folder))

/-- Carries out a command line where there are no native programs. -/
def execute (environment : Environment) (args : List Text) (folder : Folder) : Report :=
  Host.bare.execute environment args folder

end FlatClosure.Command
