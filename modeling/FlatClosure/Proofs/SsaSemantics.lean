/-
Execution of LLVM modules.

Instructions run over a heap of value records and of arrays of pointers to
them. Memory never runs out, so sizes and distances are numbers without a
bound; how many bytes a pointer takes is a parameter. Whatever is not described
here, such as a load from a place that holds nothing, does not run.

* `SsaValue`: what an operand stands for when a function runs.
* `Instr.effect`, `Instr.execAll`, `Block.run`: instructions and blocks, given how
  functions are called.
* `supportCall`: the functions that are only declared.
* `SsaModule.call`: runs a function, with a bound on the depth of calls.
* `SsaModule.execute`: what the entry prints.
-/
import FlatClosure.Proofs.Heap
import FlatClosure.Target.SsaModuleOfProgram

namespace FlatClosure

/-! ### Operands -/

/-- A value at run time. -/
inductive SsaValue where
  | int (value : Int)
  /-- A pointer to a record. -/
  | record (a : Address)
  /-- A pointer to a field of a record. -/
  | field (a : Address) (index : Int)
  /-- A pointer to a slot of an array, or as many slots behind the null
  pointer. -/
  | slot (array : Option Address) (index : Int)
  /-- A pointer to memory that has just been allocated. -/
  | memory (array : Address)
  /-- A function of the module. -/
  | code (index : Nat)

/-- The value of an operand, where the function has certain parameters and the
block has had certain results. -/
def Operand.value? (params results : List SsaValue) : Operand → Option SsaValue
  | param index => params[index]?
  | result index => results[index]?
  | func index => some (.code index)
  | int value => some (.int value)
  | null => some (.slot none 0)

/-! ### Instructions -/

/-- What functions share: the heap, and what has been printed. -/
structure SsaWorld where
  heap : Heap Nat
  printed : Text

/-- How a function is called. It may have a result. -/
abbrev SsaCall :=
  (index : Nat) → (args : List SsaValue) → SsaWorld → Option (Option SsaValue × SsaWorld)

/-- The state between two instructions of a block. -/
structure SsaState where
  results : List SsaValue
  world : SsaWorld

/-- The element that indices lead to. -/
def elementAt? : Ty → SsaValue → List SsaValue → Option SsaValue
  | .val, .record a, [.int 0, .int index] => some (.field a index)
  | .ptr .val, .slot array index, [.int distance] => some (.slot array (index + distance))
  | _, _, _ => none

/-- What lies where a pointer points to. The first field of a record is its tag;
code and environment follow. -/
def Heap.load? (h : Heap Nat) : Ty → SsaValue → Option SsaValue
  | .ptr (.func _ _), .field a 1 =>
    match h.record? a with
    | some (.closure code _) => some (.code code)
    | _ => none
  | .ptr (.ptr .val), .field a 2 =>
    match h.record? a with
    | some (.closure _ env) => some (.slot env 0)
    | _ => none
  | .ptr .val, .slot array index => (h.envCell? array index).map .record
  | _, _ => none

/-- The heap after a pointer to a record was stored. -/
def Heap.store? (h : Heap Nat) : (value target : SsaValue) → Option (Heap Nat)
  | .record a, .slot (some array) index => h.setCell? array index a
  | _, _ => none

section

variable (pointerSize : Nat) (call : SsaCall) (params : List SsaValue)

/-- The value that an instruction gives, if it gives one, and the world after
it. -/
def Instr.effect (s : SsaState) : Instr → Option (Option SsaValue × SsaWorld)
  | .call _ callee args => do
    let .code index ← callee.value? params s.results | none
    let args ← args.mapM (·.operand.value? params s.results)
    call index args s.world
  | elementPtr ty base indices => do
    let base ← base.operand.value? params s.results
    let indices ← indices.mapM (·.operand.value? params s.results)
    return (some (← elementAt? ty base indices), s.world)
  | load ty source => do
    let source ← source.operand.value? params s.results
    return (some (← s.world.heap.load? ty source), s.world)
  | store value target => do
    let value ← value.operand.value? params s.results
    let target ← target.operand.value? params s.results
    return (none, { s.world with heap := ← s.world.heap.store? value target })
  | ptrToInt value _ => do
    let .slot none index ← value.operand.value? params s.results | none
    return (some (.int (index * pointerSize)), s.world)
  | mul _ left right => do
    let .int left ← left.value? params s.results | none
    let .int right ← right.value? params s.results | none
    return (some (.int (left * right)), s.world)
  | bitCast value _ => do
    let .memory array ← value.operand.value? params s.results | none
    return (some (.slot (some array) 0), s.world)

/-- The state after an instruction, which has to give a value exactly if it has
a result. -/
def Instr.exec (s : SsaState) (instr : Instr) : Option SsaState := do
  let (value, world) ← instr.effect pointerSize call params s
  if value.isSome = instr.hasResult then return ⟨s.results ++ value.toList, world⟩ else none

/-- The state after instructions. -/
def Instr.execAll (s : SsaState) : List Instr → Option SsaState
  | [] => some s
  | instr :: instrs => do
    let s ← instr.exec pointerSize call params s
    Instr.execAll s instrs

/-- Runs a block and returns its value. -/
def Block.run (block : Block) (world : SsaWorld) : Option (Option SsaValue × SsaWorld) := do
  let s ← Instr.execAll pointerSize call params ⟨[], world⟩ block.instrs
  let value ← block.ret.operand.value? params s.results
  return (some value, s.world)

end

/-! ### Modules -/

/-- Calls a function of the support code or the library. -/
def supportCall (pointerSize : Nat) (name : Text) (args : List SsaValue) (world : SsaWorld) :
    Option (Option SsaValue × SsaWorld) :=
  if name = "build_int" then
    match args with
    | [.int value] =>
      let (a, heap) := world.heap.buildInt (Int32.ofInt value)
      some (some (.record a), { world with heap })
    | _ => none
  else if name = "build_cls" then
    match args with
    | [.code code, .slot env 0] =>
      let (a, heap) := world.heap.buildClosure code env
      some (some (.record a), { world with heap })
    | _ => none
  else if name = "print_val" then
    match args with
    | [.record a] => do
      let text ← world.heap.printed a
      return (none, { world with printed := world.printed ++ text })
    | _ => none
  else if name = "malloc" then
    match args with
    | [.int size] =>
      let (array, heap) :=
        world.heap.newArray (List.replicate (size.toNat / pointerSize) none)
      some (some (.memory array), { world with heap })
    | _ => none
  else none

namespace SsaModule

/-- Calls a function, where `run` runs the first block of one that has
blocks. -/
def enter (m : SsaModule) (pointerSize : Nat)
    (run : Block → List SsaValue → SsaWorld → Option (Option SsaValue × SsaWorld)) : SsaCall :=
  fun index args world => do
    let f ← m[index]?
    match f.blocks with
    | [] => supportCall pointerSize f.name args world
    | block :: _ => if args.length = f.params.length then run block args world else none

/-- Calls a function, where at most `fuel` calls of functions with blocks may be
active at once. -/
def call (m : SsaModule) (pointerSize : Nat) : (fuel : Nat) → SsaCall
  | 0 => m.enter pointerSize fun _ _ _ => none
  | fuel + 1 => m.enter pointerSize fun block args world =>
    block.run pointerSize (m.call pointerSize fuel) args world

/-- What the program prints, where at most `fuel` calls besides that of the
entry may be active at once. No two functions may have one name. -/
def execute (m : SsaModule) (pointerSize fuel : Nat) : Option Text :=
  if (m.map SsaFunction.name).Nodup then do
    let index ← m.findIdx? (·.name == ("main" : Text))
    let (_, world) ← m.call pointerSize (fuel + 1) index [] ⟨.empty, []⟩
    return world.printed
  else none

end SsaModule

end FlatClosure
