/-
LLVM modules as data.

A module lists functions; a function has blocks of instructions, each closed by
a return. Instructions that have a result are referred to by their position
among the instructions of their block that have one.

* `Ty`, `Operand`, `Arg`: types, operands, and operands with their types.
* `Instr`, `Block`, `SsaFunction`, `SsaModule`.
* `SsaModule.render`: the text of a module. Unnamed parameters, blocks and
  results are numbered in the order of the text; unnamed functions are numbered
  in the order of the module.

How names are written and quoted and how unnamed values are numbered is not a
choice of the compiler. The text follows the conventions of the library by which
modules are built and printed, which is not modelled otherwise.
-/
import FlatClosure.Text.Basic

namespace FlatClosure

/-! ### Types and instructions -/

/-- The types that modules use. -/
inductive Ty where
  | i8
  | i32
  | i64
  | void
  /-- The record of a value: tag, code pointer, environment. -/
  | val
  | ptr (elem : Ty)
  | func (result : Ty) (params : List Ty)
  deriving Inhabited

namespace Ty

/-- A pointer to a value. -/
def valueRef : Ty := ptr val

/-- A pointer to the first slot of an environment. -/
def slotRef : Ty := ptr valueRef

/-- A pointer to the code of a closure. -/
def codeRef : Ty := ptr (func valueRef [slotRef, valueRef])

end Ty

/-- What an instruction works on. -/
inductive Operand where
  /-- A parameter of the function, by position. -/
  | param (index : Nat)
  /-- The result of an instruction of the block, by its position among those
  that have one. -/
  | result (index : Nat)
  /-- A function of the module, by position. -/
  | func (index : Nat)
  | int (value : Int)
  | null
  deriving DecidableEq, Inhabited

/-- An operand with its type. -/
structure Arg where
  ty : Ty
  operand : Operand
  deriving Inhabited

/-- An instruction. -/
inductive Instr where
  | call (result : Ty) (callee : Operand) (args : List Arg)
  /-- The address of an element behind a pointer. -/
  | elementPtr (ty : Ty) (base : Arg) (indices : List Arg)
  | load (ty : Ty) (source : Arg)
  | store (value target : Arg)
  | ptrToInt (value : Arg) (ty : Ty)
  | mul (ty : Ty) (left right : Operand)
  | bitCast (value : Arg) (ty : Ty)
  deriving Inhabited

/-- Whether an instruction has a result. -/
def Instr.hasResult : Instr → Bool
  | call .void _ _ | store _ _ => false
  | _ => true

/-- A block: instructions and the value returned after them. -/
structure Block where
  instrs : List Instr
  ret : Arg
  deriving Inhabited

/-- How many instructions have a result. -/
def resultCount (instrs : List Instr) : Nat := instrs.countP Instr.hasResult

/-- A parameter; its name may be empty. -/
structure Param where
  name : Text
  ty : Ty
  deriving Inhabited

/-- A function. Without blocks it is only declared. -/
structure SsaFunction where
  name : Text
  result : Ty
  params : List Param
  blocks : List Block
  deriving Inhabited

/-- A module: its functions in order. -/
abbrev SsaModule := List SsaFunction

/-! ### Text of names -/

/-- A byte that a bare name may contain. -/
def isNameByte (b : UInt8) : Bool :=
  Text.isWordByte b || b == 36 || b == 45 || b == 46

/-- One byte of a name in quotes: visible ASCII other than the quote and the
backslash as it is, the others by number. -/
def quoteNameByte (b : UInt8) : Text :=
  if 32 ≤ b && b ≤ 126 && b != 34 && b != 92 then [b]
  else "\\" ++ [Nat.digitChar (b.toNat / 16), Nat.digitChar (b.toNat % 16)].map
    fun c => c.toUpper.toUInt8

/-- A name that is not empty. Names that could be taken for a number, or that
contain other bytes than bare names may, stand in quotes. -/
def quoteName (name : Text) : Text :=
  if name.all Text.isDigit && Text.decimalValue name < Nat.pow 2 64 then "\"" ++ name ++ "\""
  else if name.all isNameByte then name
  else "\"" ++ name.flatMap quoteNameByte ++ "\""

/-- A name, or the number that stands for it when it is empty. -/
def nameOrNumber (name : Text) (number : Nat) : Text :=
  if name.isEmpty then Text.ofNat number else quoteName name

/-! ### Text of integers -/

/-- The binary logarithms of the numbers from 1 to 16, in billionths. -/
def logarithms : List Nat := [
  0, 1000000000, 1584962501, 2000000000, 2321928095, 2584962501, 2807354922,
  3000000000, 3169925001, 3321928095, 3459431619, 3584962501, 3700439718,
  3807354922, 3906890596, 4000000000]

/-- The binary logarithm of a number from 1 to 16, in billionths. -/
def logarithm (n : Nat) : Nat := logarithms.getD (n - 1) 0

/-- How many digits of a number in a base differ from each other, and how many
could: as many as there are digits, but not more than the base has. -/
def distinctDigits (base n : Nat) : Nat × Nat :=
  let digits := Nat.toDigits base n
  (digits.eraseDups.length, min digits.length base)

/-- Whether a number is easier to read in hexadecimal. The variety of its digits
in a base is the logarithm of the number of different ones, as a part of the
logarithm of the number that could be different. A number of at least `0x1000`
is written in hexadecimal when its variety there is at most three fifths, and
is below the decimal variety by at least one fifth. -/
def prefersHex (n : Nat) : Bool :=
  let (hex, hexMost) := distinctDigits 16 n
  let (dec, decMost) := distinctDigits 10 n
  0x1000 ≤ n && 5 * logarithm hex ≤ 3 * logarithm hexMost &&
    (5 * logarithm hex + logarithm hexMost) * logarithm decMost
      ≤ 5 * logarithm dec * logarithm hexMost

/-- The text of an integer. -/
def renderInt (value : Int) : Text :=
  if prefersHex value.toNat then
    "u0x" ++ (Nat.toDigits 16 value.toNat).map fun c => c.toUpper.toUInt8
  else Text.ofInt value

/-! ### Text of a function -/

mutual

/-- The text of a type. -/
def Ty.render : Ty → Text
  | .i8 => "i8"
  | .i32 => "i32"
  | .i64 => "i64"
  | .void => "void"
  | .val => "%val_t"
  | .ptr elem => elem.render ++ "*"
  | .func result params => result.render ++ " (" ++ Text.join ", " (Ty.renderAll params) ++ ")"

/-- The texts of types. -/
def Ty.renderAll : List Ty → List Text
  | [] => []
  | ty :: tys => ty.render :: Ty.renderAll tys

end

/-- The names that operands refer to, as they are written. -/
structure SsaNames where
  params : List Text
  funcs : List Text
  /-- The number of the first result of the block. -/
  firstResult : Nat

/-- The text of an operand. -/
def Operand.render (names : SsaNames) : Operand → Text
  | param i => names.params.getD i []
  | result i => "%" ++ Text.ofNat (names.firstResult + i)
  | func i => names.funcs.getD i []
  | int value => renderInt value
  | null => "null"

/-- The text of an operand after its type. -/
def Arg.render (names : SsaNames) (a : Arg) : Text :=
  a.ty.render ++ " " ++ a.operand.render names

/-- The text of operands after their types, commas between them. -/
def renderArgs (names : SsaNames) (args : List Arg) : Text :=
  Text.join ", " (args.map (Arg.render names))

/-- The text of an instruction without its result. -/
def Instr.render (names : SsaNames) : Instr → Text
  | call result callee args =>
    "call " ++ result.render ++ " " ++ callee.render names ++ "(" ++ renderArgs names args ++ ")"
  | elementPtr ty base indices =>
    "getelementptr " ++ ty.render ++ ", " ++ renderArgs names (base :: indices)
  | load ty source => "load " ++ ty.render ++ ", " ++ source.render names
  | store value target => "store " ++ value.render names ++ ", " ++ target.render names
  | ptrToInt value ty => "ptrtoint " ++ value.render names ++ " to " ++ ty.render
  | mul ty left right =>
    "mul " ++ ty.render ++ " " ++ left.render names ++ ", " ++ right.render names
  | bitCast value ty => "bitcast " ++ value.render names ++ " to " ++ ty.render

/-- The lines of instructions whose first result has the given position. -/
def renderInstrs (names : SsaNames) (position : Nat) : List Instr → Text
  | [] => ""
  | instr :: rest =>
    if instr.hasResult then
      "\n\t" ++ (Operand.result position).render names ++ " = " ++ instr.render names ++
        renderInstrs names (position + 1) rest
    else "\n\t" ++ instr.render names ++ renderInstrs names position rest

/-- The texts of blocks, the first of which has the given number as its
label. -/
def renderBlocks (params funcs : List Text) (label : Nat) : List Block → List Text
  | [] => []
  | block :: rest =>
    let names : SsaNames := ⟨params, funcs, label + 1⟩
    (Text.ofNat label ++ ":" ++ renderInstrs names 0 block.instrs ++
        "\n\tret " ++ block.ret.render names) ::
      renderBlocks params funcs (label + 1 + resultCount block.instrs) rest

/-- The names of parameters as they are written. In a definition unnamed
parameters are numbered in order; in a declaration each has number zero. -/
def renderParams (defined : Bool) (number : Nat) : List Param → List Text
  | [] => []
  | p :: ps =>
    let next := if defined && p.name.isEmpty then number + 1 else number
    ("%" ++ nameOrNumber p.name number) :: renderParams defined next ps

/-- The text of a function, given the names of all functions. -/
def SsaFunction.render (funcs : List Text) (name : Text) (f : SsaFunction) : Text :=
  let params := renderParams (!f.blocks.isEmpty) 0 f.params
  let typed := List.zipWith (fun ty written : Text => ty ++ " " ++ written)
    (f.params.map (·.ty.render)) params
  let header := f.result.render ++ " " ++ name ++ "(" ++ Text.join ", " typed ++ ")"
  let unnamed := f.params.countP (·.name.isEmpty)
  if f.blocks.isEmpty then "declare " ++ header
  else
    "define " ++ header ++ " \x7b\n" ++
      Text.join "\n\n" (renderBlocks params funcs unnamed f.blocks) ++ "\n\x7d"

namespace SsaModule

/-- The names of functions as they are written, numbering the unnamed ones. -/
def writtenNames (number : Nat) : List SsaFunction → List Text
  | [] => []
  | f :: fs =>
    let next := if f.name.isEmpty then number + 1 else number
    ("@" ++ nameOrNumber f.name number) :: writtenNames next fs

/-- The line that defines the record of a value. -/
def valDefinition : Text :=
  "%val_t = type \x7b " ++ Text.join ", " (Ty.renderAll [.i32, .codeRef, .slotRef]) ++ " \x7d"

/-- The text of a module. -/
def render (m : SsaModule) : Text :=
  let names := writtenNames 0 m
  let functions := names.zipWith (fun name f => f.render names name) m
  Text.join "\n\n" (valDefinition :: functions) ++ "\n"

end SsaModule

end FlatClosure
