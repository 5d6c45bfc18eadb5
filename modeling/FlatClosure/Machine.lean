/-
Evaluation of flat programs.

Values are 32-bit integers and closures. A machine bounds how many applications
may be active at once, so evaluation always ends, and counts the applications
that it makes.

* `Value`, `RuntimeError`, `Stop`: what evaluation gives and how it stops.
* `Counted`: an outcome together with the number of applications made for it.
* `Expr.eval`: evaluation in a frame, given how closures are called.
* `Value.apply`: applying a value, with a number of further applications allowed.
* `Machine`: the declarations, the bound and the count over several
  evaluations. Nothing else is kept from one evaluation to the next.
* `Program.run`: what a program prints.
-/
import FlatClosure.Program.Basic

namespace FlatClosure

/-! ### Values and errors -/

/-- A value at run time. -/
inductive Value where
  | int (value : Int32)
  /-- A function with its captured values. -/
  | closure (code : Decl) (env : List Value)
  deriving Inhabited

/-- What is printed for a closure. -/
def closureText : Text := "<#closure>"

/-- What is printed for a value. -/
def Value.render : Value → Text
  | int value => Text.ofInt value.toInt
  | closure _ _ => closureText

/-- What can go wrong at run time. -/
inductive RuntimeError where
  | unbound (name : Text)
  | noEnvironment (env : Text)
  | outOfRange (index : Int) (env : Text) (size : Nat)
  | undeclared (func : Text)
  | notClosure (value : Int32)
  | captureCount (func : Text) (found : Nat) (expected : Int)
  | depthExceeded (limit : Int)
  deriving DecidableEq, Inhabited

/-- The message of an error at run time. -/
def RuntimeError.message (e : RuntimeError) : Text :=
  "runtime-error: " ++
    match e with
    | unbound name => "unbound variable `" ++ name ++ "`"
    | noEnvironment env => "no environment named `" ++ env ++ "`"
    | outOfRange index env size =>
      "index " ++ Text.ofInt index ++ " out of range of environment `" ++ env ++
        "` (size " ++ Text.ofNat size ++ ")"
    | undeclared func => "closure over undeclared function `" ++ func ++ "`"
    | notClosure value => "cannot apply non-closure value " ++ Text.ofInt value.toInt
    | captureCount func found expected =>
      "closure `" ++ func ++ "` built with " ++ Text.ofNat found ++
        " captured values, expected " ++ Text.ofInt expected
    | depthExceeded limit => "call depth exceeded " ++ Text.ofInt limit

/-- Why an evaluation gave no value. -/
inductive Stop where
  | error (e : RuntimeError)
  | fault (f : Fault)
  deriving DecidableEq, Inhabited

/-! ### Counting applications -/

/-- An outcome and the number of applications that were made for it. -/
structure Counted (α : Type) where
  outcome : Except Stop α
  calls : Nat

namespace Counted

/-- Stops with an error. -/
def raise {α : Type} (e : RuntimeError) : Counted α := ⟨.error (.error e), 0⟩

/-- Counts one application. -/
def tick : Counted Unit := ⟨.ok (), 1⟩

instance : Monad Counted where
  pure a := ⟨.ok a, 0⟩
  bind x f :=
    match x.outcome with
    | .error stop => ⟨.error stop, x.calls⟩
    | .ok a =>
      let y := f a
      ⟨y.outcome, x.calls + y.calls⟩

end Counted

/-! ### Evaluation -/

/-- What an expression can read: local names, the newest first, and
environments. -/
structure LocalFrame where
  locals : List (Text × Value)
  envs : List (Text × List Value)

namespace LocalFrame

/-- The frame of an entry expression. -/
def empty : LocalFrame := ⟨[], []⟩

/-- The frame with one more local name. -/
def bind (f : LocalFrame) (name : Text) (value : Value) : LocalFrame :=
  { f with locals := (name, value) :: f.locals }

/-- The value of a local name. -/
def local? (f : LocalFrame) (name : Text) : Counted Value :=
  match f.locals.lookup name with
  | some value => pure value
  | none => .raise (.unbound name)

/-- The value in a slot of an environment. -/
def slot? (f : LocalFrame) (env : Text) (index : Int) : Counted Value :=
  match f.envs.lookup env with
  | none => .raise (.noEnvironment env)
  | some values =>
    match if 0 ≤ index then values[index.toNat]? else none with
    | some value => pure value
    | none => .raise (.outOfRange index env values.length)

end LocalFrame

/-- The declaration of a name; of several, the last. -/
def findDecl? (decls : List Decl) (name : Text) : Option Decl :=
  (decls.filter (·.name == name)).getLast?

namespace Expr

mutual

/-- The value of an expression in a frame, where `call` applies a value to
another. -/
def eval (decls : List Decl) (call : Value → Value → Counted Value) (f : LocalFrame) :
    Expr → Counted Value
  | num value => pure (.int value.toInt32)
  | ref name => f.local? name
  | slot env index => f.slot? env index
  | app func arg => do
    let callee ← f.local? func
    let argument ← arg.eval decls call f
    call callee argument
  | closure func captured =>
    match findDecl? decls func with
    | none => .raise (.undeclared func)
    | some code => do
      let env ← evalAll decls call f captured
      return .closure code env
  | letIn name bind body => do
    let value ← bind.eval decls call f
    body.eval decls call (f.bind name value)
  | missing => ⟨.error (.fault .missingExpr), 0⟩

/-- The values of expressions from left to right. -/
def evalAll (decls : List Decl) (call : Value → Value → Counted Value) (f : LocalFrame) :
    List Expr → Counted (List Value)
  | [] => pure []
  | e :: es => do
    let value ← e.eval decls call f
    let values ← evalAll decls call f es
    return value :: values

end

end Expr

/-- Applies `callee` to `argument` where `left` applications may still be
nested into each other; `limit` is the bound that a message reports. -/
def Value.apply (decls : List Decl) (limit : Int) :
    (left : Nat) → (callee argument : Value) → Counted Value
  | _, .int value, _ => .raise (.notClosure value)
  | left, .closure code env, argument =>
    if (env.length : Int) ≠ code.slotCount then
      .raise (.captureCount code.name env.length code.slotCount)
    else
      match left with
      | 0 => .raise (.depthExceeded limit)
      | left + 1 => do
        Counted.tick
        code.body.eval decls (Value.apply decls limit left)
          ⟨[(code.arg, argument)], [(code.env, env)]⟩

/-! ### Machines -/

/-- The bound of a new machine. -/
def defaultDepthLimit : Int := 10000

/-- A machine for the declarations of a program. -/
structure Machine where
  decls : List Decl
  /-- How many applications may be active at once. -/
  depthLimit : Int
  /-- How many applications have been made. -/
  steps : Nat
  deriving Inhabited

namespace Machine

/-- A new machine for a program. -/
def ofProgram (p : Program) : Machine := ⟨p.decls, defaultDepthLimit, 0⟩

/-- Applies one value to another under the bound of the machine. -/
def callUnder (m : Machine) : Value → Value → Counted Value :=
  Value.apply m.decls m.depthLimit m.depthLimit.toNat

/-- The outcome of a computation and the machine after it. -/
def after {α : Type} (m : Machine) (c : Counted α) : Except Stop α × Machine :=
  (c.outcome, { m with steps := m.steps + c.calls })

/-- Evaluates an entry expression. -/
def eval (m : Machine) (e : Expr) : Except Stop Value × Machine :=
  m.after (e.eval m.decls m.callUnder .empty)

/-- Applies one value to another. -/
def apply (m : Machine) (callee argument : Value) : Except Stop Value × Machine :=
  m.after (m.callUnder callee argument)

/-- The machine with another bound. -/
def setDepthLimit (m : Machine) (depthLimit : Int) : Machine := { m with depthLimit }

end Machine

/-- What a program prints: the value of its entry and a line feed. -/
def Program.run (p : Program) : Except Stop Text :=
  match p.entry with
  | .error fault => .error (.fault fault)
  | .ok e => ((Machine.ofProgram p).eval e).1.map (·.render ++ "\n")

end FlatClosure
