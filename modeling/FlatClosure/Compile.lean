/-
Compilation: from a source to a program and its text in a target.

* `Failure`: what is wrong with a source, perhaps under notes that were added
  on the way; `Failure.explain` shows the place in the source when scanning or
  parsing failed.
* `Source.parse`, `Source.convert`: tokens and tree, and the flat program.
* `compile`: the whole way. A program in C may refer to names that nobody
  binds, which is left to the C compiler; a program in LLVM may not.
-/
import FlatClosure.Excerpt
import FlatClosure.Program.OfTree
import FlatClosure.Target.Basic
import FlatClosure.Token.Scan
import FlatClosure.Tree.Parse

namespace FlatClosure

/-! ### Failures -/

/-- What is wrong with a source. -/
inductive Failure where
  | lex (e : LexError)
  | parse (e : ParseError)
  /-- A name is free in a program that has to be closed. -/
  | unbound (name path : Text)
  /-- Another reason, in words. -/
  | other (message : Text)
  /-- A failure with a note in front of its message. -/
  | noted (note : Text) (inner : Failure)
  deriving DecidableEq, Inhabited

namespace Failure

/-- The message of a failure. -/
def message : Failure → Text
  | lex e => e.message
  | parse e => e.message
  | unbound name path => "unbound variable `" ++ name ++ "` in " ++ path
  | other message => message
  | noted note inner => note ++ ": " ++ inner.message

/-- The failure below all notes. -/
def cause : Failure → Failure
  | noted _ inner => inner.cause
  | failure => failure

/-- The place in the source where scanning or parsing failed. -/
def pos? : Failure → Option Pos
  | lex e => some e.pos
  | parse e => some e.token.pos
  | _ => none

end Failure

/-- A source file. -/
structure Source where
  path : Text
  text : Text
  deriving DecidableEq, Inhabited

/-- The message of a failure, below the place in the source if there is one;
notes are then left out. -/
def Failure.explain (source : Source) (f : Failure) : Text :=
  match f.cause.pos? with
  | some pos => excerpt source.text pos ++ "\n" ++ source.path ++ ": " ++ f.cause.message
  | none => f.message

/-! ### Stages -/

/-- Tokens and tree of a source. -/
structure Parsed where
  tokens : List Token
  tree : Tree
  deriving Inhabited

/-- Scans and parses a text. -/
def Text.parse (text : Text) : Except Failure Parsed :=
  match Token.scan text with
  | .error e => .error (.lex e)
  | .ok tokens =>
    match Tree.ofTokens tokens with
    | .error e => .error (.parse e)
    | .ok tree => .ok ⟨tokens, tree⟩

/-- A source in all its stages. -/
structure Compiled where
  tokens : List Token
  program : Program
  output : Text
  deriving Inhabited

/-- Why a source was not compiled. -/
inductive CompileError where
  | failure (f : Failure)
  | fault (f : Fault)
  deriving DecidableEq, Inhabited

/-- Compiles a source to the target with exactly this name. -/
def compile (source : Source) (target : Text) : Except CompileError Compiled :=
  match source.text.parse with
  | .error f => .error (.failure f)
  | .ok parsed =>
    match if target = Target.llvm.name then parsed.tree.free else [] with
    | name :: _ => .error (.failure (.unbound name source.path))
    | [] =>
      let program := parsed.tree.toProgram
      match Target.generateNamed target program with
      | .error fault => .error (.fault fault)
      | .ok output => .ok ⟨parsed.tokens, program, output⟩

end FlatClosure
