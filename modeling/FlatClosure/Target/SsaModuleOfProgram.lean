/-
LLVM module of a flat program.

Every declaration becomes a function of one block. Names are not looked up at
run time: a binding is the operand that holds its value.

* `supportFunctions`: the functions that the support code provides.
* `Expr.toSsa`: instructions of an expression and the operand of its value.
* `Program.toSsa`: the module of a program. Of several declarations of one name
  the last function made gets all the blocks.
-/
import FlatClosure.Program.Basic
import FlatClosure.Target.SsaModule

namespace FlatClosure

/-! ### Support functions -/

/-- What the support code provides, in the order of the module. -/
def supportFunctions : List SsaFunction := [
  ⟨"build_cls", .valueRef, [⟨"code", .codeRef⟩, ⟨"env", .slotRef⟩], []⟩,
  ⟨"build_int", .valueRef, [⟨"val", .i32⟩], []⟩,
  ⟨"print_val", .void, [⟨"val", .valueRef⟩], []⟩,
  ⟨"malloc", .ptr .i8, [⟨"", .i64⟩], []⟩]

/-- The function that builds a closure. -/
def closureBuilder : Operand := .func 0

/-- The function that builds an integer. -/
def intBuilder : Operand := .func 1

/-- The function that prints a value. -/
def valuePrinter : Operand := .func 2

/-- The function that allocates memory. -/
def allocator : Operand := .func 3

/-! ### Expressions -/

/-- Instructions and the operand that holds the value they compute. -/
structure SsaCode where
  instrs : List Instr
  value : Operand

/-- The operands of bound names, the innermost binder first. -/
abbrev Operands := List (Text × Operand)

/-- Names that are the same in a whole declaration: functions and
environments. -/
structure SsaContext where
  funcs : Operands
  envs : Operands

/-- Instructions that apply a closure, when `start` results come before
them. -/
def applyInstrs (start : Nat) (callee argument : Operand) : List Instr := [
  .elementPtr .val ⟨.valueRef, callee⟩ [⟨.i32, .int 0⟩, ⟨.i32, .int 1⟩],
  .elementPtr .val ⟨.valueRef, callee⟩ [⟨.i32, .int 0⟩, ⟨.i32, .int 2⟩],
  .load .codeRef ⟨.ptr .codeRef, .result start⟩,
  .load .slotRef ⟨.ptr .slotRef, .result (start + 1)⟩,
  .call .valueRef (.result (start + 2))
    [⟨.slotRef, .result (start + 3)⟩, ⟨.valueRef, argument⟩]]

/-- Instructions that allocate an environment with `size` slots, when `start`
results come before them. The size of a slot is the distance from the null
pointer to the next slot. -/
def allocInstrs (start size : Nat) : List Instr := [
  .elementPtr .valueRef ⟨.slotRef, .null⟩ [⟨.i32, .int 1⟩],
  .ptrToInt ⟨.slotRef, .result start⟩ .i64,
  .mul .i64 (.result (start + 1)) (.int size),
  .call (.ptr .i8) allocator [⟨.i64, .result (start + 2)⟩],
  .bitCast ⟨.ptr .i8, .result (start + 3)⟩ .slotRef]

/-- Instructions that fill the slots of an environment from `slot` on, when
`start` results come before them. -/
def fillInstrs (env : Operand) (start slot : Nat) : List Operand → List Instr
  | [] => []
  | value :: values =>
    .elementPtr .valueRef ⟨.slotRef, env⟩ [⟨.i64, .int slot⟩] ::
    .store ⟨.valueRef, value⟩ ⟨.slotRef, .result start⟩ ::
    fillInstrs env (start + 1) (slot + 1) values

/-- Instructions that build a closure over captured values, when `start`
results come before them. -/
def closureCode (start : Nat) (func : Operand) (captured : List Operand) : SsaCode :=
  match captured with
  | [] => ⟨[.call .valueRef closureBuilder [⟨.codeRef, func⟩, ⟨.slotRef, .null⟩]], .result start⟩
  | _ :: _ =>
    let env : Operand := .result (start + 4)
    ⟨allocInstrs start captured.length ++ fillInstrs env (start + 5) 0 captured ++
        [.call .valueRef closureBuilder [⟨.codeRef, func⟩, ⟨.slotRef, env⟩]],
      .result (start + 5 + captured.length)⟩

namespace Expr

mutual

/-- Instructions of an expression, when `start` results come before them. -/
def toSsa (ctx : SsaContext) (start : Nat) (scope : Operands) : Expr → Except Fault SsaCode
  | num value =>
    .ok ⟨[.call .valueRef intBuilder [⟨.i32, .int value.toInt32.toInt⟩]], .result start⟩
  | ref name =>
    match scope.lookup name with
    | none => .error (.unboundReference name)
    | some operand => .ok ⟨[], operand⟩
  | slot env index =>
    match ctx.envs.lookup env with
    | none => .error (.foreignEnvironment env)
    | some operand =>
      .ok ⟨[.elementPtr .valueRef ⟨.slotRef, operand⟩ [⟨.i64, .int index⟩],
          .load .valueRef ⟨.slotRef, .result start⟩], .result (start + 1)⟩
  | app func arg =>
    match scope.lookup func with
    | none => .error (.unboundCallee func)
    | some callee => do
      let argument ← arg.toSsa ctx start scope
      let start := start + resultCount argument.instrs
      return ⟨argument.instrs ++ applyInstrs start callee argument.value, .result (start + 4)⟩
  | closure func captured =>
    match ctx.funcs.lookup func with
    | none => .error (.undeclaredFunction func)
    | some code => do
      let (instrs, values) ← toSsaAll ctx start scope captured
      let built := closureCode (start + resultCount instrs) code values
      return ⟨instrs ++ built.instrs, built.value⟩
  | letIn name bind body => do
    let bound ← bind.toSsa ctx start scope
    let rest ← body.toSsa ctx (start + resultCount bound.instrs) ((name, bound.value) :: scope)
    return ⟨bound.instrs ++ rest.instrs, rest.value⟩
  | missing => .error .missingExpr

/-- Instructions of expressions from left to right, and their values. -/
def toSsaAll (ctx : SsaContext) (start : Nat) (scope : Operands) :
    List Expr → Except Fault (List Instr × List Operand)
  | [] => .ok ([], [])
  | e :: es => do
    let first ← e.toSsa ctx start scope
    let (instrs, values) ← toSsaAll ctx (start + resultCount first.instrs) scope es
    return (first.instrs ++ instrs, first.value :: values)

end

end Expr

/-! ### Functions and modules -/

/-- The block of a declaration, whose function has the environment and the
argument as its parameters. -/
def Decl.toSsa (funcs : Operands) (d : Decl) : Except Fault Block := do
  let ctx : SsaContext := ⟨funcs, [(d.env, .param 0)]⟩
  let code ← d.body.toSsa ctx 0 [(d.arg, .param 1)]
  return ⟨code.instrs, ⟨.valueRef, code.value⟩⟩

/-- The function of the entry: it prints the value and returns zero. -/
def entryToSsa (funcs : Operands) (e : Expr) : Except Fault SsaFunction := do
  let code ← e.toSsa ⟨funcs, []⟩ 0 []
  let print : Instr := .call .void valuePrinter [⟨.valueRef, code.value⟩]
  return ⟨"main", .i32, [], [⟨code.instrs ++ [print], ⟨.i32, .int 0⟩⟩]⟩

/-- The parameters of the function of a declaration. An argument of the same
name as the environment is left unnamed. -/
def Decl.ssaParams (d : Decl) : List Param :=
  [⟨d.env, .slotRef⟩,
    ⟨if d.arg = d.env then "" else d.arg, .valueRef⟩]

/-- The functions of declarations with their blocks. A declaration that a later
one of the same name follows gets none, and the last one gets all. -/
def ssaFunctions (made : List (Text × Block)) : List (Decl × Block) → List SsaFunction
  | [] => []
  | (d, block) :: rest =>
    let made := made ++ [(d.name, block)]
    let blocks :=
      if rest.any (·.1.name == d.name) then []
      else (made.filter (·.1 == d.name)).map Prod.snd
    ⟨d.name, .valueRef, d.ssaParams, blocks⟩ :: ssaFunctions made rest

/-- The operands of the declared functions, later ones first. -/
def functionOperands (decls : List Decl) : Operands :=
  ((decls.zipIdx supportFunctions.length).map fun (d, i) => (d.name, .func i)).reverse

/-- The LLVM module of a program. -/
def Program.toSsa (p : Program) : Except Fault SsaModule := do
  let entry ← p.entry
  let funcs := functionOperands p.decls
  let blocks ← p.decls.mapM (Decl.toSsa funcs)
  let main ← entryToSsa funcs entry
  return supportFunctions ++ ssaFunctions [] (p.decls.zip blocks) ++ [main]

end FlatClosure
