/-
Execution of C source files.

A function runs over its locals and the heap. An identifier has to be declared
where it is used, and a local hides the function of the same name, so that a
file that declares a name twice, reads a local too early or uses a function
that is hidden or comes later does not run.

* `CVar`, `CLocals`: the parameters and locals of a function that runs.
* `CExpr.eval`, `CStmt.exec`, `CBody.run`: expressions, statements and bodies,
  given how code is called.
* `CUnit.call`: runs the function that a code pointer names, with a bound on
  the depth of calls.
* `CUnit.execute`: what the entry prints.
-/
import FlatClosure.Proofs.Heap
import FlatClosure.Target.CUnit

namespace FlatClosure

/-! ### Locals -/

/-- What an identifier of a function that runs holds. -/
inductive CVar where
  /-- A `val_t *`, to which nothing has been assigned at first. -/
  | pointer (target : Option Address)
  /-- A `val_t **`, which may be the null pointer. -/
  | env (array : Option Address)

/-- The parameters and locals of a function that runs, the last change
first. -/
abbrev CLocals := List (Text × CVar)

namespace CLocals

/-- Whether an identifier is a local, so that a function of this name cannot be
used. -/
def hides (locals : CLocals) (name : Text) : Bool := (locals.lookup name).isSome

/-- The record that an identifier points to. -/
def pointer? (locals : CLocals) (name : Text) : Option Address :=
  match locals.lookup name with
  | some (.pointer target) => target
  | _ => none

/-- The array that an identifier points to. -/
def env? (locals : CLocals) (name : Text) : Option (Option Address) :=
  match locals.lookup name with
  | some (.env array) => some array
  | _ => none

/-- The locals with one more, unless it is declared already. -/
def declare (locals : CLocals) (name : Text) (var : CVar) : Option CLocals :=
  if locals.hides name then none else some ((name, var) :: locals)

/-- The locals after an assignment. -/
def assign (locals : CLocals) (name : Text) (a : Address) : Option CLocals :=
  match locals.lookup name with
  | some (.pointer _) => some ((name, .pointer (some a)) :: locals)
  | _ => none

end CLocals

/-! ### Expressions and statements -/

/-- How code is called: with an environment, an argument and the heap. -/
abbrev CCall := Text → Option Address → Address → Heap Text → Option (Address × Heap Text)

/-- Calls the code of the closure at an address. -/
def Heap.callClosure (h : Heap Text) (call : CCall) (callee argument : Address) :
    Option (Address × Heap Text) :=
  match h.record? callee with
  | some (.closure code env) => call code env argument h
  | _ => none

/-- A heap copy of captured values; none is made for no values. -/
def Heap.copyCaptured (h : Heap Text) : List Address → Option Address × Heap Text
  | [] => (none, h)
  | a :: addresses =>
    let (array, h) := h.newArray ((a :: addresses).map some)
    (some array, h)

/-- The functions that an expression which builds a closure calls. -/
def closureSupport : List Text := List.map Text.ofString ["build_cls", "memcpy", "malloc"]

mutual

/-- The record that an expression points to, and the heap after it; `visible`
are the functions declared before. -/
def CExpr.eval (call : CCall) (visible : List Text) (locals : CLocals) :
    CExpr → Heap Text → Option (Address × Heap Text)
  | .int value, h =>
    if locals.hides "build_int" then none else some (h.buildInt value.toInt32)
  | .read name, h => do return (← locals.pointer? name, h)
  | .slot env index, h => do
    let array ← locals.env? env
    return (← h.envCell? array index, h)
  | .call callee arg, h => do
    let target ← locals.pointer? callee
    let (argument, h) ← arg.eval call visible locals h
    h.callClosure call target argument
  | .closure func captured, h =>
    if (func :: closureSupport).any locals.hides || !visible.contains func then none
    else do
      let (addresses, h) ← CExpr.evalAll call visible locals captured h
      let (env, h) := h.copyCaptured addresses
      return h.buildClosure func env

/-- The records that expressions point to, evaluated from left to right. -/
def CExpr.evalAll (call : CCall) (visible : List Text) (locals : CLocals) :
    List CExpr → Heap Text → Option (List Address × Heap Text)
  | [], h => some ([], h)
  | e :: es, h => do
    let (a, h) ← e.eval call visible locals h
    let (addresses, h) ← CExpr.evalAll call visible locals es h
    return (a :: addresses, h)

end

/-- Locals and heap while a function runs. -/
structure CState where
  locals : CLocals
  heap : Heap Text

/-- The state after a statement. -/
def CStmt.exec (call : CCall) (visible : List Text) (s : CState) : CStmt → Option CState
  | declare name => do
    return { s with locals := ← s.locals.declare name (.pointer none) }
  | assign name value => do
    let (a, heap) ← value.eval call visible s.locals s.heap
    return ⟨← s.locals.assign name a, heap⟩

/-- The state after statements. -/
def CStmt.execAll (call : CCall) (visible : List Text) (s : CState) :
    List CStmt → Option CState
  | [] => some s
  | stmt :: stmts => do
    let s ← stmt.exec call visible s
    CStmt.execAll call visible s stmts

/-- The record that a body prepares, and the state after it. -/
def CBody.run (call : CCall) (visible : List Text) (s : CState) (body : CBody) :
    Option (Address × CState) := do
  let s ← CStmt.execAll call visible s body.stmts
  let (a, heap) ← body.value.eval call visible s.locals s.heap
  return (a, { s with heap })

/-! ### Source files -/

/-- A function with the functions that can be used in it. -/
structure CFunction where
  visible : List Text
  env : Text
  arg : Text
  body : CBody

namespace CUnit

/-- The function with a name; the functions in `before` come before the
file. -/
def function? (before : List Text) : CUnit → Text → Option CFunction
  | [], _ => none
  | .main _ :: rest, name => function? before rest name
  | .function other env arg body :: rest, name =>
    if other = name then some ⟨before ++ [other], env, arg, body⟩
    else function? (before ++ [other]) rest name

/-- The entry with the functions that can be used in it. -/
def main? (before : List Text) : CUnit → Option (List Text × CBody)
  | [] => none
  | .main body :: _ => some (before, body)
  | .function name _ _ _ :: rest => main? (before ++ [name]) rest

/-- The names of the functions that a file defines. -/
def defined (unit : CUnit) : List Text :=
  unit.map fun
    | .function name _ _ _ => name
    | .main _ => "main"

/-- The functions that the support code and the library define. -/
def supportNames : List Text :=
  List.map Text.ofString
    ["build_int", "build_cls", "print_val", "destroy_val", "malloc", "memcpy"]

/-- Whether no function is defined twice, in the file or with the support
code. -/
def links (unit : CUnit) : Bool := (unit.defined ++ supportNames).Nodup

/-- Calls the function that a code pointer names, where at most `fuel` calls may
be active at once. -/
def call (unit : CUnit) : (fuel : Nat) → CCall
  | 0, _, _, _, _ => none
  | fuel + 1, code, env, argument, h => do
    let f ← unit.function? [] code
    let locals ← CLocals.declare [] f.env (.env env)
    let locals ← locals.declare f.arg (.pointer (some argument))
    let (a, s) ← f.body.run (unit.call fuel) f.visible ⟨locals, h⟩
    return (a, s.heap)

/-- What the program prints, where at most `fuel` calls may be active at
once. -/
def execute (unit : CUnit) (fuel : Nat) : Option Text :=
  if unit.links then do
    let (visible, body) ← unit.main? []
    let (a, s) ← body.run (unit.call fuel) visible ⟨[], .empty⟩
    if s.locals.hides "print_val" then none else s.heap.printed a
  else none

end CUnit

end FlatClosure
