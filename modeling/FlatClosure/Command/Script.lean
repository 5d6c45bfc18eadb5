/-
Scripts: what a command asks of the operating system, one operation after the
other.

A script is a computation that may fail and that reads and writes files, makes
a directory, starts a native program, prints and logs on the way. It goes on
with what each operation answers. What was done before a failure stays done.

* `Operation`, `Operation.Answer`: the operations and what they answer.
* `Script`: the computations, a monad.
* `Host`: what the operating system decides: the numbers drawn for new names,
  how much standard output takes, and what native programs do.
* `World`: the folder, standard output and the log.
* `Operation.perform`, `Script.run`: one operation, and a whole script.
-/
import FlatClosure.Files.Folder
import FlatClosure.NativeCompiler
import FlatClosure.Target.Basic

namespace FlatClosure.Command

/-! ### The log -/

/-- A stage whose duration is logged. -/
inductive Stage where
  | parsing
  | conversion
  | generation (target : Target)

/-- An entry of the log. -/
inductive LogEntry where
  | message (text : Text)
  /-- How long a stage took. -/
  | duration (stage : Stage)

/-- The line of a log entry, given the microseconds that each stage took. A
message that ends in a line feed gets no other. -/
def LogEntry.render (micros : Stage → Text) : LogEntry → Text
  | message text => if text.getLast? = some 10 then text else text ++ "\n"
  | duration stage =>
    "time: " ++ micros stage ++
      match stage with
      | .parsing => "us for lexing and parsing\n"
      | .conversion => "us for closure conversion\n"
      | .generation target => "us to generate " ++ target.name ++ "\n"

/-! ### Scripts -/

/-- What a script can ask for. -/
inductive Operation where
  | read (path : Text)
  | write (path content : Text)
  | copy (source target : Text)
  /-- A new directory in another one, with a name that begins with a stem. -/
  | makeTemp (dir stem : Text)
  | start (invocation : NativeCompiler.Invocation)
  | print (text : Text)
  | log (entry : LogEntry)

/-- What an operation answers. -/
def Operation.Answer : Operation → Type
  | read _ => Except FileError Text
  | write _ _ => Except FileError Unit
  | copy _ _ => Except FileError Unit
  | makeTemp _ _ => Except FileError Text
  | start _ => Except Text Unit
  | print _ => Except FileError Unit
  | log _ => Unit

/-- A computation that ends in a value or an error, after some operations. -/
inductive Script (ε α : Type) where
  | done (result : Except ε α)
  | ask (operation : Operation) (next : operation.Answer → Script ε α)

namespace Script

variable {ε ε' α β : Type}

/-- One script and then another one, which gets the value of the first. -/
def andThen : Script ε α → (α → Script ε β) → Script ε β
  | done (.ok a), next => next a
  | done (.error e), _ => done (.error e)
  | ask operation rest, next => ask operation fun answer => (rest answer).andThen next

instance : Monad (Script ε) where
  pure a := done (.ok a)
  bind := andThen

/-- The script with other errors. -/
def mapError (f : ε → ε') : Script ε α → Script ε' α
  | done (.ok a) => done (.ok a)
  | done (.error e) => done (.error (f e))
  | ask operation rest => ask operation fun answer => (rest answer).mapError f

/-- The script with its errors among its values. -/
def attempt : Script ε α → Script ε' (Except ε α)
  | done result => done (.ok result)
  | ask operation rest => ask operation fun answer => (rest answer).attempt

/-- Reads a file. -/
def read (path : Text) : Script FileError Text := ask (.read path) done

/-- Replaces the content of a file. -/
def write (path content : Text) : Script FileError Unit := ask (.write path content) done

/-- Copies a file. -/
def copy (source target : Text) : Script FileError Unit := ask (.copy source target) done

/-- Makes a directory; its path. -/
def makeTemp (dir stem : Text) : Script FileError Text := ask (.makeTemp dir stem) done

/-- Starts a native program and waits for its end. -/
def start (invocation : NativeCompiler.Invocation) : Script Text Unit :=
  ask (.start invocation) done

/-- Prints to standard output. -/
def print (text : Text) : Script FileError Unit := ask (.print text) done

/-- Adds entries to the log. -/
def log : List LogEntry → Script ε Unit
  | [] => done (.ok ())
  | entry :: entries => ask (.log entry) fun _ => log entries

end Script

/-! ### Running scripts -/

/-- How a native program ended: the folder after it, what it printed, and a
message if it failed. -/
structure Finished where
  folder : Folder
  printed : Text
  failure? : Option Text

/-- What the operating system decides. -/
structure Host where
  /-- The numbers that are drawn for names of new directories. -/
  drawn : Nat → Nat
  /-- How many bytes standard output takes, if there is a bound. -/
  outputRoom : Option Nat
  /-- What the native program of this name does, if there is one. -/
  programs : Text → Option (NativeCompiler.Invocation → Folder → Finished)

/-- The host without native programs and without bounds. -/
def Host.bare : Host := ⟨id, none, fun _ => none⟩

/-- What scripts act on. -/
structure World where
  folder : Folder
  stdout : Text
  log : List LogEntry

/-- A folder, with nothing printed or logged. -/
def World.start (folder : Folder) : World := ⟨folder, [], []⟩

/-- As much of a text as standard output takes behind what was printed. -/
def Host.shown (host : Host) (printed text : Text) : Text :=
  match host.outputRoom with
  | none => text
  | some room => text.take (room - printed.length)

/-- The answer of an operation, and the world after it. -/
def Operation.perform (host : Host) (world : World) :
    (operation : Operation) → operation.Answer × World
  | read path => (world.folder.read path, world)
  | write path content =>
    let (answer, folder) := world.folder.write path content
    (answer, { world with folder })
  | copy source target =>
    let (answer, folder) := world.folder.copy source target
    (answer, { world with folder })
  | makeTemp dir stem =>
    let (answer, folder) := world.folder.makeTemp host.drawn dir stem
    (answer, { world with folder })
  | start invocation =>
    match host.programs invocation.name with
    | none => (.error (NativeCompiler.notFoundMessage invocation.name), world)
    | some program =>
      let finished := program invocation world.folder
      let shown := host.shown world.stdout finished.printed
      (match finished.failure? with
        | none => .ok ()
        | some message => .error message,
        { world with folder := finished.folder, stdout := world.stdout ++ shown })
  | print text =>
    let shown := host.shown world.stdout text
    (if shown = text then .ok () else .error ⟨.writing, "/dev/stdout", .noSpace⟩,
      { world with stdout := world.stdout ++ shown })
  | log entry => ((), { world with log := world.log ++ [entry] })

/-- The end of a script, and the world after it. -/
def Script.run {ε α : Type} (host : Host) : Script ε α → World → Except ε α × World
  | done result, world => (result, world)
  | ask operation next, world =>
    let (answer, after) := operation.perform host world
    (next answer).run host after

/-- The end of a script in a folder without native programs, and the folder
after it. -/
def Script.runIn {ε α : Type} (script : Script ε α) (folder : Folder) : Except ε α × Folder :=
  let (result, world) := script.run .bare (.start folder)
  (result, world.folder)

end FlatClosure.Command
