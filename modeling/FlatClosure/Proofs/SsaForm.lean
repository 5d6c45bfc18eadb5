/-
Modules in SSA form.

In the data of a module, operands are positions, of parameters and of results. In
its text they are names, and what has no name is numbered in the order of the text.

* `quoteName_inj`: names that start with a letter are written differently if they
  differ; `quoteName_ne_ofNat`: none is written like a number.
* `DefinedBefore`: whether instructions use only parameters and results that come
  before; `Expr.definedFrom_toSsa`: those of a translated expression do.
* `SsaListing`: a function of one block as it is written, with the names of its
  local values; `SsaFunction.listedAs_listing`: it is the text of the function.
* `SsaListing.InSsaForm`: what makes such a text one in SSA form.
* `Program.toSsa_in_ssa_form`: the functions of a module are in SSA form.
-/
import Mathlib.Data.List.GetD
import FlatClosure.Proofs.LexicalGrammar
import FlatClosure.Proofs.SsaCompilation

namespace FlatClosure

/-! ### Written names -/

/-- Whether a name starts with a letter or an underscore. -/
def Text.startsWithLetter (name : Text) : Bool := name.head?.any isLetter

lemma Text.startsWithLetter_iff {name : Text} :
    name.startsWithLetter ↔ ∃ b rest, name = b :: rest ∧ isLetter b := by
  cases name with
  | nil => simp [startsWithLetter]
  | cons b rest => simp [startsWithLetter]

lemma hexDigit_inj : ∀ i < 16, ∀ j < 16,
    (Nat.digitChar i).toUpper.toUInt8 = (Nat.digitChar j).toUpper.toUInt8 → i = j := by
  decide

/-- A byte of a name in quotes can be read back in front of any text. -/
lemma quoteNameByte_append_inj {b c : UInt8} {s t : Text}
    (h : quoteNameByte b ++ s = quoteNameByte c ++ t) : b = c ∧ s = t := by
  have hslash : Text.ofString "\\" = [92] := rfl
  simp only [quoteNameByte, hslash] at h
  split_ifs at h with hb hc hc
  · simpa using h
  · obtain ⟨rfl, -⟩ := List.cons.inj h
    exact absurd hb (by decide)
  · obtain ⟨rfl, -⟩ := List.cons.inj h
    exact absurd hc (by decide)
  · simp only [List.map_cons, List.map_nil, List.cons_append, List.nil_append, List.cons.injEq,
      true_and] at h
    obtain ⟨hhigh, hlow, rfl⟩ := h
    have hb256 := b.toNat_lt
    have hc256 := c.toNat_lt
    have hdiv := hexDigit_inj _ (by omega) _ (by omega) hhigh
    have hmod := hexDigit_inj _ (by omega) _ (by omega) hlow
    exact ⟨UInt8.toNat_inj.mp (by omega), rfl⟩

lemma quoteNameBytes_injective : Function.Injective (List.flatMap quoteNameByte) := by
  have hne : ∀ b (s : Text), quoteNameByte b ++ s ≠ [] := by
    intro b s
    rw [quoteNameByte]
    split_ifs <;> simp
  intro s t h
  induction s generalizing t with
  | nil =>
      cases t with
      | nil => rfl
      | cons c t => exact absurd h.symm (hne c _)
  | cons b s ih =>
      cases t with
      | nil => exact absurd h (hne b _)
      | cons c t =>
          obtain ⟨rfl, hrest⟩ := quoteNameByte_append_inj h
          rw [ih hrest]

section

variable {x y : Text}

/-- A name that starts with a letter is written bare, or in quotes. -/
lemma quoteName_cases (hx : x.startsWithLetter) :
    quoteName x = x ∨ quoteName x = "\"" ++ x.flatMap quoteNameByte ++ "\"" := by
  obtain ⟨b, rest, rfl, hletter⟩ := Text.startsWithLetter_iff.mp hx
  have hdigits : (b :: rest).all Text.isDigit = false := by
    simp [Text.isDigit_eq_false_of_isLetter hletter]
  rw [quoteName, hdigits, Bool.false_and, if_neg Bool.false_ne_true]
  split_ifs
  · exact Or.inl rfl
  · exact Or.inr rfl

/-- **Names that start with a letter are written differently if they differ.** -/
lemma quoteName_inj (hx : x.startsWithLetter) (hy : y.startsWithLetter)
    (h : quoteName x = quoteName y) : x = y := by
  have hbare : ∀ {z t : Text}, z.startsWithLetter → z ≠ "\"" ++ t ++ "\"" := by
    rintro z t hz rfl
    change Text.isLetter 34 at hz
    exact absurd hz (by decide)
  rcases quoteName_cases hx with hxeq | hxeq <;> rcases quoteName_cases hy with hyeq | hyeq <;>
    rw [hxeq, hyeq] at h
  · exact h
  · exact absurd h (hbare hx)
  · exact absurd h.symm (hbare hy)
  · exact quoteNameBytes_injective (List.append_cancel_left (List.append_cancel_right h))

/-- No name that starts with a letter is written like a number. -/
lemma quoteName_ne_ofNat (hx : x.startsWithLetter) (n : Nat) : quoteName x ≠ Text.ofNat n := by
  intro h
  obtain ⟨b, rest, hnat⟩ := List.exists_cons_of_ne_nil (Text.ofNat_ne_nil n)
  have hdigit : Text.isDigit b := Text.isDigit_of_mem_ofNat (hnat ▸ List.mem_cons_self)
  rw [hnat] at h
  rcases quoteName_cases hx with heq | heq <;> rw [heq] at h
  · obtain ⟨c, rest', rfl, hletter⟩ := Text.startsWithLetter_iff.mp hx
    obtain ⟨rfl, -⟩ := List.cons.inj h
    rw [Text.isDigit_eq_false_of_isLetter hletter] at hdigit
    exact Bool.false_ne_true hdigit
  · obtain ⟨rfl, -⟩ := List.cons.inj h
    exact absurd hdigit (by decide)

end

/-! ### Operands that come before -/

namespace Operand

/-- Whether an operand is a local value of a function. -/
def isLocal : Operand → Bool
  | param _ | result _ => true
  | func _ | int _ | null => false

/-- Whether an operand can be used in a function with `params` parameters where
`results` results come before. -/
def Available (params results : Nat) : Operand → Prop
  | param i => i < params
  | result i => i < results
  | func _ | int _ | null => True

variable {params results results' i : Nat} {operand : Operand}

@[simp] lemma available_result : (result i).Available params results ↔ i < results := Iff.rfl

@[simp] lemma available_func : (func i).Available params results := trivial

@[simp] lemma available_int (value : Int) : (int value).Available params results := trivial

@[simp] lemma available_null : null.Available params results := trivial

lemma Available.mono (h : operand.Available params results) (hle : results ≤ results') :
    operand.Available params results' := by
  cases operand with
  | param i => exact h
  | result i => exact Nat.lt_of_lt_of_le h hle
  | func i => trivial
  | int value => trivial
  | null => trivial

end Operand

/-- The operands of an instruction. -/
def Instr.operands : Instr → List Operand
  | call _ callee args => callee :: args.map Arg.operand
  | elementPtr _ base indices => base.operand :: indices.map Arg.operand
  | load _ source => [source.operand]
  | store value target => [value.operand, target.operand]
  | ptrToInt value _ => [value.operand]
  | mul _ left right => [left, right]
  | bitCast value _ => [value.operand]

/-- Whether instructions use only parameters and results that come before, when
`results` results come before them. -/
def DefinedBefore (params : Nat) : (results : Nat) → List Instr → Prop
  | _, [] => True
  | results, instr :: rest =>
    (∀ operand ∈ instr.operands, operand.Available params results) ∧
      DefinedBefore params (results + resultCount [instr]) rest

/-- Whether code uses only parameters and results that come before, and so does the
use of its value after it. -/
structure SsaCode.DefinedFrom (params results : Nat) (code : SsaCode) : Prop where
  instrs : DefinedBefore params results code.instrs
  value : code.value.Available params (results + resultCount code.instrs)

lemma resultCount_append (instrs instrs' : List Instr) :
    resultCount (instrs ++ instrs') = resultCount instrs + resultCount instrs' :=
  List.countP_append

lemma resultCount_cons (instr : Instr) (rest : List Instr) :
    resultCount (instr :: rest) = resultCount [instr] + resultCount rest :=
  resultCount_append [instr] rest

section

variable {params results : Nat}

lemma definedBefore_append {instrs instrs' : List Instr} :
    DefinedBefore params results (instrs ++ instrs') ↔
      DefinedBefore params results instrs ∧
        DefinedBefore params (results + resultCount instrs) instrs' := by
  induction instrs generalizing results with
  | nil => simp [DefinedBefore, resultCount]
  | cons instr rest ih =>
      rw [resultCount_cons instr rest, ← Nat.add_assoc]
      simp only [List.cons_append, DefinedBefore, ih, and_assoc]

/-- The operands of an instruction come before it. -/
lemma DefinedBefore.available {before after : List Instr} {instr : Instr}
    (h : DefinedBefore params results (before ++ instr :: after)) {operand : Operand}
    (hoperand : operand ∈ instr.operands) :
    operand.Available params (results + resultCount before) :=
  (definedBefore_append.mp h).2.1 operand hoperand

lemma definedBefore_applyInstrs {callee argument : Operand}
    (hcallee : callee.Available params results) (hargument : argument.Available params results) :
    DefinedBefore params results (applyInstrs results callee argument) := by
  have hcallee' := hcallee.mono (Nat.le_add_right results 1)
  have hargument' := hargument.mono (Nat.le_add_right results 4)
  have hlt : results < results + 1 + 1 := by omega
  simp [DefinedBefore, applyInstrs, Instr.operands, resultCount, Instr.hasResult, Ty.valueRef,
    hcallee, hcallee', hargument', hlt]

lemma definedBefore_allocInstrs (size : Nat) :
    DefinedBefore params results (allocInstrs results size) := by
  simp [DefinedBefore, allocInstrs, Instr.operands, resultCount, Instr.hasResult, allocator]

lemma definedBefore_fillInstrs {env : Operand} {values : List Operand}
    (henv : env.Available params results)
    (hvalues : ∀ v ∈ values, v.Available params results) (slot : Nat) :
    DefinedBefore params results (fillInstrs env results slot values) := by
  induction values generalizing results slot with
  | nil => trivial
  | cons value values ih =>
      have hle := Nat.le_add_right results 1
      have hrest := ih (henv.mono hle)
        (fun v hv => (hvalues v (List.mem_cons_of_mem _ hv)).mono hle) (slot + 1)
      have hvalue := (hvalues value List.mem_cons_self).mono hle
      simpa [DefinedBefore, fillInstrs, Instr.operands, resultCount, Instr.hasResult, henv, hvalue]
        using hrest

lemma definedFrom_closureCode {func : Operand} {captured : List Operand}
    (hfunc : func.Available params results)
    (hcaptured : ∀ v ∈ captured, v.Available params results) :
    (closureCode results func captured).DefinedFrom params results := by
  cases captured with
  | nil =>
      constructor
      · simp [DefinedBefore, closureCode, Instr.operands, closureBuilder, hfunc]
      · simp [closureCode, resultCount, Instr.hasResult, Ty.valueRef]
  | cons first rest =>
      have hfill : DefinedBefore params (results + 5)
          (fillInstrs (.result (results + 4)) (results + 5) 0 (first :: rest)) :=
        definedBefore_fillInstrs (Operand.available_result.mpr (Nat.lt_succ_self (results + 4)))
          (fun v hv => (hcaptured v hv).mono (Nat.le_add_right results 5)) 0
      have hcount : resultCount (allocInstrs results (first :: rest).length ++
          fillInstrs (.result (results + 4)) (results + 5) 0 (first :: rest)) =
            5 + (first :: rest).length := by
        rw [resultCount_append, resultCount_fillInstrs]
        rfl
      constructor
      · refine definedBefore_append.mpr ⟨definedBefore_append.mpr
          ⟨definedBefore_allocInstrs _, hfill⟩, ?_, trivial⟩
        have hfunc' := hfunc.mono (Nat.le_add_right results (5 + (first :: rest).length))
        have henv : (Operand.result (results + 4)).Available params
            (results + (5 + (first :: rest).length)) := Operand.available_result.mpr (by omega)
        rw [hcount]
        exact List.forall_mem_cons.mpr ⟨trivial, List.forall_mem_cons.mpr
          ⟨hfunc', List.forall_mem_singleton.mpr henv⟩⟩
      · change results + 5 + (first :: rest).length < results + resultCount (_ ++ [_])
        rw [resultCount_append, hcount, resultCount, List.countP_singleton]
        change _ < results + (5 + (first :: rest).length + 1)
        omega

end

/-- Whether the operands that stand for functions, environments and bound names can
be used. -/
structure OperandsAvailable (ctx : SsaContext) (scope : Operands) (params results : Nat) :
    Prop where
  funcs : ∀ q ∈ ctx.funcs, q.2.Available params results
  envs : ∀ q ∈ ctx.envs, q.2.Available params results
  scope : ∀ q ∈ scope, q.2.Available params results

namespace OperandsAvailable

variable {ctx : SsaContext} {scope : Operands} {params results : Nat}

lemma mono (h : OperandsAvailable ctx scope params results) {results' : Nat}
    (hle : results ≤ results') : OperandsAvailable ctx scope params results' :=
  ⟨fun q hq => (h.funcs q hq).mono hle, fun q hq => (h.envs q hq).mono hle,
    fun q hq => (h.scope q hq).mono hle⟩

lemma bind (h : OperandsAvailable ctx scope params results) (name : Text) {operand : Operand}
    (hoperand : operand.Available params results) :
    OperandsAvailable ctx ((name, operand) :: scope) params results :=
  ⟨h.funcs, h.envs, List.forall_mem_cons.mpr ⟨hoperand, h.scope⟩⟩

end OperandsAvailable

namespace Expr

variable {ctx : SsaContext} {scope : Operands} {params start : Nat}

/-- Captured expressions use what comes before if each of them does. -/
lemma definedFrom_toSsaAll {es : List Expr}
    (hes : ∀ e ∈ es, ∀ start code, OperandsAvailable ctx scope params start →
      e.toSsa ctx start scope = .ok code → code.DefinedFrom params start)
    (havailable : OperandsAvailable ctx scope params start) {instrs : List Instr}
    {values : List Operand} (h : toSsaAll ctx start scope es = .ok (instrs, values)) :
    DefinedBefore params start instrs ∧
      ∀ v ∈ values, v.Available params (start + resultCount instrs) := by
  induction es generalizing start instrs values with
  | nil =>
      cases h
      exact ⟨trivial, fun v hv => absurd hv List.not_mem_nil⟩
  | cons e es ih =>
      obtain ⟨first, instrs', values', hfirst, hrest, rfl, rfl⟩ := exists_of_toSsaAll_cons h
      have hcode := hes e List.mem_cons_self start first havailable hfirst
      obtain ⟨hinstrs, hvalues⟩ := ih (fun c hc => hes c (List.mem_cons_of_mem e hc))
        (havailable.mono (Nat.le_add_right _ _)) hrest
      rw [resultCount_append, ← Nat.add_assoc]
      exact ⟨definedBefore_append.mpr ⟨hcode.instrs, hinstrs⟩, List.forall_mem_cons.mpr
        ⟨hcode.value.mono (Nat.le_add_right _ _), hvalues⟩⟩

/-- **Translated expressions use what comes before**, where all that their names
stand for comes before. -/
lemma definedFrom_toSsa (e : Expr) {code : SsaCode}
    (havailable : OperandsAvailable ctx scope params start)
    (h : e.toSsa ctx start scope = .ok code) : code.DefinedFrom params start := by
  induction e using ind generalizing start scope code with
  | num value =>
      cases h
      constructor
      · simp [DefinedBefore, Instr.operands, intBuilder]
      · simp [resultCount, Instr.hasResult, Ty.valueRef]
  | ref name =>
      obtain ⟨operand, hlook, rfl⟩ := exists_of_toSsa_ref h
      exact ⟨trivial, havailable.scope _ (mem_of_lookup hlook)⟩
  | slot env index =>
      obtain ⟨operand, hlook, rfl⟩ := exists_of_toSsa_slot h
      have henv := havailable.envs _ (mem_of_lookup hlook)
      constructor
      · simpa [DefinedBefore, Instr.operands, resultCount, Instr.hasResult] using henv
      · exact Operand.available_result.mpr (Nat.lt_succ_self (start + 1))
  | app func arg ih =>
      obtain ⟨callee, argument, hlook, harg, rfl⟩ := exists_of_toSsa_app h
      have hargument := ih havailable harg
      have hcallee := (havailable.scope _ (mem_of_lookup hlook)).mono
        (Nat.le_add_right start (resultCount argument.instrs))
      constructor
      · exact definedBefore_append.mpr
          ⟨hargument.instrs, definedBefore_applyInstrs hcallee hargument.value⟩
      · have happly : resultCount (applyInstrs (start + resultCount argument.instrs) callee
            argument.value) = 5 := rfl
        rw [resultCount_append, happly, Operand.available_result]
        omega
  | closure func captured ih =>
      obtain ⟨operand, instrs, values, hlook, hall, rfl⟩ := exists_of_toSsa_closure h
      obtain ⟨hinstrs, hvalues⟩ := definedFrom_toSsaAll
        (fun c hc start code => ih c hc) havailable hall
      have hfunc := (havailable.funcs _ (mem_of_lookup hlook)).mono
        (Nat.le_add_right start (resultCount instrs))
      have hbuilt := definedFrom_closureCode hfunc hvalues
      constructor
      · exact definedBefore_append.mpr ⟨hinstrs, hbuilt.instrs⟩
      · rw [resultCount_append, ← Nat.add_assoc]
        exact hbuilt.value
  | letIn name bind body ihb ih =>
      obtain ⟨bound, rest, hbound, hrest, rfl⟩ := exists_of_toSsa_letIn h
      have hbind := ihb havailable hbound
      have hbody := ih ((havailable.mono (Nat.le_add_right _ _)).bind name hbind.value) hrest
      constructor
      · exact definedBefore_append.mpr ⟨hbind.instrs, hbody.instrs⟩
      · rw [resultCount_append, ← Nat.add_assoc]
        exact hbody.value
  | missing => exact absurd h (by simp [toSsa])

end Expr

/-! ### Functions as they are written -/

/-- The name of a local value that has only a number. -/
def numberedName (number : Nat) : Text := "%" ++ Text.ofNat number

lemma numberedName_injective : Function.Injective numberedName := fun _ _ h =>
  Text.ofNat_injective (List.append_cancel_left h)

lemma map_numberedName_append (m n : Nat) :
    (List.range' 0 m).map numberedName ++ (List.range' m n).map numberedName =
      (List.range (m + n)).map numberedName := by
  have happend : List.range' 0 m ++ List.range' (0 + m) n = List.range' 0 (m + n) :=
    List.range'_append_1
  rw [Nat.zero_add] at happend
  rw [← List.map_append, happend, List.range_eq_range']

/-- An instruction as it is written, with the name of its result if it has one. -/
structure SsaLine where
  result : Option Text
  instr : Instr

/-- The text of a line. -/
def SsaLine.render (names : SsaNames) (line : SsaLine) : Text :=
  match line.result with
  | some result => "\n\t" ++ result ++ " = " ++ line.instr.render names
  | none => "\n\t" ++ line.instr.render names

/-- A function of one block as it is written. -/
structure SsaListing where
  /-- The names that operands are written by, with those of the parameters. -/
  names : SsaNames
  label : Text
  lines : List SsaLine
  ret : Arg

namespace SsaListing

/-- The names of the results, in the order of the text. -/
def results (l : SsaListing) : List Text := l.lines.filterMap SsaLine.result

/-- The names of the parameters, of the block and of the results. -/
def locals (l : SsaListing) : List Text := l.names.params ++ ("%" ++ l.label) :: l.results

/-- The names of the parameters that are left unnamed, of the block and of the
results, in the order of the text. -/
def unnamed (l : SsaListing) (params : List Param) : List Text :=
  ((params.zip l.names.params).filter (·.1.name.isEmpty)).map Prod.snd ++
    ("%" ++ l.label) :: l.results

/-- The text of a function: after its parameters and the label of its block the
lines, and one return. -/
def render (l : SsaListing) (f : SsaFunction) (name : Text) : Text :=
  "define " ++ f.result.render ++ " " ++ name ++ "(" ++
    Text.join ", " (List.zipWith (fun p written => p.ty.render ++ " " ++ written)
      f.params l.names.params) ++ ")" ++ " \x7b\n" ++
    l.label ++ ":" ++ l.lines.flatMap (SsaLine.render l.names) ++
    "\n\tret " ++ l.ret.render l.names ++ "\n\x7d"

/-- **SSA form.** Every parameter has a written name. What is left unnamed is
numbered from zero on in the order of the text, and no two local values have one
name. The lines whose instructions have a result name it. An operand that is a
local value is written by the name of a parameter or of an earlier result. -/
structure InSsaForm (l : SsaListing) (f : SsaFunction) : Prop where
  length_params : l.names.params.length = f.params.length
  unnamed_eq : l.unnamed f.params = (List.range (l.unnamed f.params).length).map numberedName
  nodup : l.locals.Nodup
  hasResult : ∀ line ∈ l.lines, line.result.isSome = line.instr.hasResult
  defined : ∀ before line after, l.lines = before ++ line :: after →
    ∀ operand ∈ line.instr.operands, operand.isLocal →
      operand.render l.names ∈ l.names.params ++ before.filterMap SsaLine.result
  ret_defined : l.ret.operand.isLocal →
    l.ret.operand.render l.names ∈ l.names.params ++ l.results

end SsaListing

/-- Whether a function is listed: it has one block, with the instructions of the
lines and the value that is returned, and its text is that of the listing. -/
structure SsaFunction.ListedAs (f : SsaFunction) (funcs : List Text) (name : Text)
    (l : SsaListing) : Prop where
  blocks_eq : f.blocks = [⟨l.lines.map SsaLine.instr, l.ret⟩]
  render_eq : f.render funcs name = l.render f name

/-! ### Lines of a block -/

/-- The lines of instructions whose first result has the given position. -/
def numberedLines (names : SsaNames) (position : Nat) : List Instr → List SsaLine
  | [] => []
  | instr :: rest =>
    if instr.hasResult then
      ⟨some ((Operand.result position).render names), instr⟩ ::
        numberedLines names (position + 1) rest
    else ⟨none, instr⟩ :: numberedLines names position rest

section

variable (names : SsaNames)

lemma renderInstrs_eq (position : Nat) (instrs : List Instr) :
    renderInstrs names position instrs =
      (numberedLines names position instrs).flatMap (SsaLine.render names) := by
  induction instrs generalizing position with
  | nil => rfl
  | cons instr rest ih =>
      rw [renderInstrs, numberedLines, ih, ih]
      split_ifs
      · simp [SsaLine.render]
      · simp [SsaLine.render]

lemma map_instr_numberedLines (position : Nat) (instrs : List Instr) :
    (numberedLines names position instrs).map SsaLine.instr = instrs := by
  induction instrs generalizing position with
  | nil => rfl
  | cons instr rest ih => rw [numberedLines]; split_ifs <;> rw [List.map_cons, ih]

lemma length_numberedLines (position : Nat) (instrs : List Instr) :
    (numberedLines names position instrs).length = instrs.length := by
  rw [← List.length_map SsaLine.instr, map_instr_numberedLines]

/-- The results of the lines are numbered one after the other. -/
lemma results_numberedLines (position : Nat) (instrs : List Instr) :
    (numberedLines names position instrs).filterMap SsaLine.result =
      (List.range' position (resultCount instrs)).map fun i =>
        (Operand.result i).render names := by
  induction instrs generalizing position with
  | nil => rfl
  | cons instr rest ih =>
      rw [numberedLines, resultCount, List.countP_cons, ← resultCount]
      split_ifs
      · rw [List.filterMap_cons, ih, List.range'_succ, List.map_cons]
      · rw [List.filterMap_cons, ih, Nat.add_zero]

lemma numberedLines_append (position : Nat) (instrs instrs' : List Instr) :
    numberedLines names position (instrs ++ instrs') =
      numberedLines names position instrs ++
        numberedLines names (position + resultCount instrs) instrs' := by
  induction instrs generalizing position with
  | nil => rfl
  | cons instr rest ih =>
      rw [List.cons_append, numberedLines, numberedLines, resultCount, List.countP_cons,
        ← resultCount]
      split_ifs
      · rw [ih, List.cons_append, Nat.add_right_comm, Nat.add_assoc position]
      · rw [ih, List.cons_append, Nat.add_zero]

variable {names}

lemma isSome_result_numberedLines {position : Nat} {instrs : List Instr} {line : SsaLine}
    (h : line ∈ numberedLines names position instrs) :
    line.result.isSome = line.instr.hasResult := by
  induction instrs generalizing position with
  | nil => exact absurd h List.not_mem_nil
  | cons instr rest ih =>
      rw [numberedLines] at h
      split_ifs at h with hresult
      · rcases List.mem_cons.mp h with rfl | h
        · exact hresult.symm
        · exact ih h
      · rcases List.mem_cons.mp h with rfl | h
        · exact (eq_false_of_ne_true hresult).symm
        · exact ih h

/-- The lines before a line are those of the instructions before its instruction. -/
lemma exists_of_numberedLines_eq {position : Nat} {instrs : List Instr}
    {before after : List SsaLine} {line : SsaLine}
    (h : numberedLines names position instrs = before ++ line :: after) :
    ∃ before' after', instrs = before' ++ line.instr :: after' ∧
      before = numberedLines names position before' := by
  have hinstrs : instrs = before.map SsaLine.instr ++ line.instr :: after.map SsaLine.instr := by
    rw [← map_instr_numberedLines names position instrs, h, List.map_append, List.map_cons]
  refine ⟨_, _, hinstrs, ?_⟩
  rw [hinstrs, numberedLines_append] at h
  refine (List.append_inj h ?_).1.symm
  rw [length_numberedLines, List.length_map]

/-- An operand that comes before is written by the name of a parameter or of one of
the results before. -/
lemma Operand.render_mem {operand : Operand} {count : Nat}
    (h : operand.Available names.params.length count) (hlocal : operand.isLocal) :
    operand.render names ∈ names.params ++
      (List.range' 0 count).map fun i => (Operand.result i).render names := by
  cases operand with
  | param i =>
      refine List.mem_append_left _ ?_
      rw [render, List.getD_eq_getElem _ _ h]
      exact List.getElem_mem h
  | result i =>
      exact List.mem_append_right _ (List.mem_map.mpr
        ⟨i, List.mem_range'_1.mpr ⟨Nat.zero_le i, by rw [Nat.zero_add]; exact h⟩, rfl⟩)
  | func i => exact absurd hlocal Bool.false_ne_true
  | int value => exact absurd hlocal Bool.false_ne_true
  | null => exact absurd hlocal Bool.false_ne_true

end

/-! ### Written parameters -/

/-- Whether the parameters that are not left unnamed have different names, which
start with a letter. -/
structure NamesApart (params : List Param) : Prop where
  nodup : ((params.filter (!·.name.isEmpty)).map Param.name).Nodup
  startsWithLetter : ∀ p ∈ params, !p.name.isEmpty → p.name.startsWithLetter

section

variable (params : List Param)

lemma length_renderParams (number : Nat) :
    (renderParams true number params).length = params.length := by
  induction params generalizing number with
  | nil => rfl
  | cons p ps ih => rw [renderParams, List.length_cons, ih, List.length_cons]

/-- Parameters that are left unnamed are numbered one after the other. -/
lemma unnamed_renderParams (number : Nat) :
    ((params.zip (renderParams true number params)).filter (·.1.name.isEmpty)).map Prod.snd =
      (List.range' number (params.countP (·.name.isEmpty))).map numberedName := by
  induction params generalizing number with
  | nil => rfl
  | cons p ps ih =>
      rw [renderParams, List.zip_cons_cons, List.filter_cons, List.countP_cons]
      by_cases hempty : p.name.isEmpty
      · rw [if_pos hempty, if_pos hempty, List.range'_succ, List.map_cons, List.map_cons]
        simp only [hempty, Bool.and_self, if_true, ih]
        rw [nameOrNumber, if_pos hempty]
        rfl
      · rw [if_neg hempty, if_neg hempty]
        simp [hempty, ih]

/-- The other parameters are written by their names. -/
lemma named_renderParams (number : Nat) :
    ((params.zip (renderParams true number params)).filter (!·.1.name.isEmpty)).map Prod.snd =
      ((params.filter (!·.name.isEmpty)).map Param.name).map fun name => "%" ++ quoteName name := by
  induction params generalizing number with
  | nil => rfl
  | cons p ps ih =>
      rw [renderParams, List.zip_cons_cons, List.filter_cons, List.filter_cons]
      by_cases hempty : p.name.isEmpty
      · simp [hempty, ih]
      · simp [hempty, ih, nameOrNumber]

/-- With the unnamed parameters in front, the numbers after them continue theirs. -/
lemma renderParams_append_perm (count : Nat) :
    (renderParams true 0 params ++ (List.range' (params.countP (·.name.isEmpty)) count).map
      numberedName).Perm
    ((List.range (params.countP (·.name.isEmpty) + count)).map numberedName ++
      ((params.filter (!·.name.isEmpty)).map Param.name).map
        fun name => "%" ++ quoteName name) := by
  have hsnd : (params.zip (renderParams true 0 params)).map Prod.snd = renderParams true 0 params :=
    List.map_snd_zip (length_renderParams params 0).le
  have hsplit := (List.filter_append_perm (·.1.name.isEmpty)
    (params.zip (renderParams true 0 params))).map Prod.snd
  rw [List.map_append, unnamed_renderParams, named_renderParams, hsnd] at hsplit
  set unnamed := params.countP (·.name.isEmpty)
  set named := ((params.filter (!·.name.isEmpty)).map Param.name).map fun name =>
    "%" ++ quoteName name
  set numbers := (List.range' unnamed count).map numberedName
  calc
    List.Perm _ ((List.range' 0 unnamed).map numberedName ++ named ++ numbers) :=
      hsplit.symm.append_right numbers
    List.Perm _ ((List.range' 0 unnamed).map numberedName ++ numbers ++ named) := by
      rw [List.append_assoc, List.append_assoc]
      exact List.perm_append_comm.append_left _
    _ = (List.range (unnamed + count)).map numberedName ++ named := by
      rw [map_numberedName_append]

variable {params}

/-- The names that are written for parameters, and the numbers after those of the
unnamed ones, differ from each other. -/
lemma nodup_renderParams (h : NamesApart params) (count : Nat) :
    (renderParams true 0 params ++ (List.range' (params.countP (·.name.isEmpty)) count).map
      numberedName).Nodup := by
  have hnamed : ∀ name ∈ (params.filter (!·.name.isEmpty)).map Param.name,
      name.startsWithLetter := by
    intro name hname
    obtain ⟨p, hp, rfl⟩ := List.mem_map.mp hname
    obtain ⟨hp, hnonempty⟩ := List.mem_filter.mp hp
    exact h.startsWithLetter p hp hnonempty
  rw [(renderParams_append_perm params count).nodup_iff, List.nodup_append']
  refine ⟨List.nodup_range.map numberedName_injective, h.nodup.map_on ?_, ?_⟩
  · intro x hx y hy heq
    exact quoteName_inj (hnamed x hx) (hnamed y hy) (List.append_cancel_left heq)
  · intro x hx hx'
    obtain ⟨i, -, rfl⟩ := List.mem_map.mp hx
    obtain ⟨name, hname, heq⟩ := List.mem_map.mp hx'
    exact quoteName_ne_ofNat (hnamed name hname) i (List.append_cancel_left heq)

lemma Decl.namesApart_ssaParams {d : Decl} (henv : d.env.startsWithLetter)
    (harg : d.arg.startsWithLetter) : NamesApart d.ssaParams := by
  have hne : ∀ {name : Text}, name.startsWithLetter → name.isEmpty = false := by
    intro name hname
    obtain ⟨b, rest, rfl, -⟩ := Text.startsWithLetter_iff.mp hname
    rfl
  have hempty : Text.ofString "" = [] := rfl
  by_cases heq : d.arg = d.env
  · constructor
    · simp [Decl.ssaParams, heq, hne henv, hempty]
    · simp [Decl.ssaParams, heq, henv, hempty]
  · constructor
    · simp [Decl.ssaParams, heq, Ne.symm heq, hne henv, hne harg]
    · simp [Decl.ssaParams, heq, henv, harg]

end

/-! ### Functions of a module -/

namespace SsaFunction

variable {f : SsaFunction} {block : Block}

/-- Whether a function has a body. -/
def isDefined (f : SsaFunction) : Bool := !f.blocks.isEmpty

/-- A function with the given block as it is written. -/
def listing (f : SsaFunction) (funcs : List Text) (block : Block) : SsaListing :=
  let unnamed := f.params.countP (·.name.isEmpty)
  let names : SsaNames := ⟨renderParams true 0 f.params, funcs, unnamed + 1⟩
  ⟨names, Text.ofNat unnamed, numberedLines names 0 block.instrs, block.ret⟩

/-- The text of a function with one block. -/
lemma listedAs_listing (hblocks : f.blocks = [block]) (funcs : List Text) (name : Text) :
    f.ListedAs funcs name (f.listing funcs block) := by
  constructor
  · rw [hblocks, listing, map_instr_numberedLines]
  · rw [SsaFunction.render, hblocks]
    simp only [List.isEmpty_cons, Bool.not_false, Bool.false_eq_true, if_false, renderBlocks,
      Text.join, SsaListing.render, listing, renderInstrs_eq, List.zipWith_map_left,
      List.append_assoc]

lemma results_listing (f : SsaFunction) (funcs : List Text) (block : Block) :
    (f.listing funcs block).results =
      (List.range' (f.params.countP (·.name.isEmpty) + 1) (resultCount block.instrs)).map
        numberedName := by
  rw [SsaListing.results, listing, results_numberedLines, List.range'_eq_map_range,
    List.range'_eq_map_range, List.map_map, List.map_map]
  refine List.map_congr_left fun i _ => ?_
  simp [Operand.render, numberedName]

/-- The block and the results are numbered after the unnamed parameters. -/
lemma label_results_listing (f : SsaFunction) (funcs : List Text) (block : Block) :
    ("%" ++ (f.listing funcs block).label) :: (f.listing funcs block).results =
      (List.range' (f.params.countP (·.name.isEmpty)) (resultCount block.instrs + 1)).map
        numberedName := by
  rw [results_listing, List.range'_succ, List.map_cons]
  rfl

/-- **What is left unnamed is numbered from zero on**, in the order of the text. -/
lemma unnamed_listing (f : SsaFunction) (funcs : List Text) (block : Block) :
    (f.listing funcs block).unnamed f.params =
      (List.range (f.params.countP (·.name.isEmpty) + (resultCount block.instrs + 1))).map
        numberedName := by
  have hparams := unnamed_renderParams f.params 0
  rw [SsaListing.unnamed, label_results_listing, listing, hparams, map_numberedName_append]

/-- **A function is in SSA form** if its parameters have different names and its
instructions use what comes before. -/
lemma inSsaForm_listing (funcs : List Text) (hnames : NamesApart f.params)
    (hinstrs : DefinedBefore f.params.length 0 block.instrs)
    (hret : block.ret.operand.Available f.params.length (resultCount block.instrs)) :
    (f.listing funcs block).InSsaForm f := by
  have hlength : (f.listing funcs block).names.params.length = f.params.length :=
    length_renderParams f.params 0
  refine ⟨hlength, ?_, ?_, fun line => isSome_result_numberedLines, ?_, fun hlocal => ?_⟩
  · rw [unnamed_listing, List.length_map, List.length_range]
  · rw [SsaListing.locals, label_results_listing]
    exact nodup_renderParams hnames _
  · intro before line after hlines operand hoperand hlocal
    obtain ⟨before', after', heq, rfl⟩ := exists_of_numberedLines_eq hlines
    have havailable := DefinedBefore.available (heq ▸ hinstrs) hoperand
    rw [Nat.zero_add, ← hlength] at havailable
    rw [results_numberedLines]
    exact operand.render_mem havailable hlocal
  · rw [SsaListing.results, listing, results_numberedLines]
    exact Operand.render_mem (hlength ▸ hret) hlocal

end SsaFunction

lemma available_functionOperands (decls : List Decl) (params results : Nat) :
    ∀ q ∈ functionOperands decls, q.2.Available params results := by
  intro q hq
  obtain ⟨⟨d, i⟩, -, rfl⟩ := List.mem_map.mp (List.mem_reverse.mp hq)
  trivial

/-- The function of a declaration is in SSA form. -/
lemma Decl.inSsaForm_listing {d : Decl} {decls : List Decl} {block : Block}
    (h : d.toSsa (functionOperands decls) = .ok block) (henv : d.env.startsWithLetter)
    (harg : d.arg.startsWithLetter) (funcs : List Text) :
    ((d.ssaFunction block).listing funcs block).InSsaForm (d.ssaFunction block) := by
  obtain ⟨code, hcode, hblock⟩ := Except.exists_of_bind_ok h
  cases hblock
  have havailable : OperandsAvailable ⟨functionOperands decls, [(d.env, .param 0)]⟩
      [(d.arg, .param 1)] 2 0 :=
    ⟨available_functionOperands decls 2 0, List.forall_mem_singleton.mpr Nat.zero_lt_two,
      List.forall_mem_singleton.mpr Nat.one_lt_two⟩
  have hdefined := d.body.definedFrom_toSsa havailable hcode
  refine SsaFunction.inSsaForm_listing funcs (namesApart_ssaParams henv harg) hdefined.instrs ?_
  rw [← Nat.zero_add (resultCount code.instrs)]
  exact hdefined.value

/-- The entry is in SSA form. -/
lemma SsaCode.inSsaForm_listing {e : Expr} {decls : List Decl} {code : SsaCode}
    (h : e.toSsa ⟨functionOperands decls, []⟩ 0 [] = .ok code) {block : Block}
    (hblock : code.entry.blocks = [block]) (funcs : List Text) :
    (code.entry.listing funcs block).InSsaForm code.entry := by
  cases hblock
  have havailable : OperandsAvailable ⟨functionOperands decls, []⟩ [] 0 0 :=
    ⟨available_functionOperands decls 0 0, List.forall_mem_nil _, List.forall_mem_nil _⟩
  have hdefined := e.definedFrom_toSsa havailable h
  have hnames : NamesApart [] := ⟨List.nodup_nil, List.forall_mem_nil _⟩
  refine SsaFunction.inSsaForm_listing funcs hnames ?_ trivial
  refine definedBefore_append.mpr ⟨hdefined.instrs, ?_, trivial⟩
  exact List.forall_mem_cons.mpr ⟨trivial, List.forall_mem_singleton.mpr hdefined.value⟩

namespace Program

/-- The module of a program whose declarations have different names. -/
lemma exists_of_toSsa {p : Program} {m : SsaModule} (hnodup : (p.decls.map Decl.name).Nodup)
    (h : p.toSsa = .ok m) :
    ∃ (e : Expr) (blocks : List Block) (code : SsaCode), AreBlocksOf p.decls blocks ∧
      e.toSsa ⟨functionOperands p.decls, []⟩ 0 [] = .ok code ∧
      m = ssaModule p.decls blocks code := by
  obtain ⟨e, -, h⟩ := Except.exists_of_bind_ok h
  obtain ⟨blocks, hmapM, h⟩ := Except.exists_of_bind_ok h
  obtain ⟨main, hmain, h⟩ := Except.exists_of_bind_ok h
  obtain ⟨code, hcode, hmain⟩ := Except.exists_of_bind_ok hmain
  cases hmain
  have hblocks : AreBlocksOf p.decls blocks := Except.forall₂_of_mapM_ok hmapM
  refine ⟨e, blocks, code, hblocks, hcode, ?_⟩
  rw [ssaModule, ← ssaFunctions_zip hnodup hblocks]
  exact (Except.ok.inj h).symm

/-- **Modules are in SSA form.** If the declarations of a program have different
names and their parameters start with letters, its module, if it has one, defines a
function for each declaration, and the entry. Each of them has one block, which ends
in its only return, and is in SSA form as it is written. -/
theorem toSsa_in_ssa_form {p : Program} {m : SsaModule} (hnodup : (p.decls.map Decl.name).Nodup)
    (hletters : ∀ d ∈ p.decls, d.env.startsWithLetter ∧ d.arg.startsWithLetter)
    (h : p.toSsa = .ok m) :
    (m.filter SsaFunction.isDefined).map SsaFunction.name =
      p.decls.map Decl.name ++ [Text.ofString "main"] ∧
    ∀ f ∈ m, f.isDefined → ∀ funcs name, ∃ l, f.ListedAs funcs name l ∧ l.InSsaForm f := by
  obtain ⟨e, blocks, code, hblocks, hcode, rfl⟩ := exists_of_toSsa hnodup h
  have hsupport : supportFunctions.filter SsaFunction.isDefined = [] := rfl
  constructor
  · have hdefined : ∀ f ∈ (p.decls.zip blocks).map fun q => q.1.ssaFunction q.2, f.isDefined := by
      intro f hf
      obtain ⟨q, -, rfl⟩ := List.mem_map.mp hf
      rfl
    rw [ssaModule, List.filter_append, List.filter_append, hsupport, List.nil_append,
      List.filter_eq_self.mpr hdefined, List.map_append, names_ssaFunction hblocks]
    rfl
  · intro f hf hdefined funcs name
    rcases List.mem_append.mp hf with hf | hf
    · rcases List.mem_append.mp hf with hf | hf
      · exact absurd hdefined (List.filter_eq_nil_iff.mp hsupport f hf)
      · obtain ⟨⟨d, block⟩, hpair, rfl⟩ := List.mem_map.mp hf
        obtain ⟨henv, harg⟩ := hletters d (List.of_mem_zip hpair).1
        have hblock := (List.forall₂_iff_zip.mp hblocks).2 hpair
        exact ⟨_, SsaFunction.listedAs_listing rfl funcs name,
          Decl.inSsaForm_listing hblock henv harg funcs⟩
    · obtain rfl := List.mem_singleton.mp hf
      exact ⟨_, SsaFunction.listedAs_listing rfl funcs name,
        SsaCode.inSsaForm_listing hcode rfl funcs⟩

/-- One declaration has the same name for both parameters, and the other one a name
that is written in quotes. -/
theorem toSsa_in_ssa_form_shadowed :
    let p : Program := [.decl ⟨1, "f", "x", "x", .app "x" (.slot "x" 0)⟩,
      .decl ⟨0, "g", "e", "a b", .letIn "n" (.num 5) (.closure "f" [.ref "n", .ref "a b"])⟩,
      .main (.letIn "h" (.closure "g" []) (.app "h" (.ref "h")))]
    (p.decls.map Decl.name).Nodup ∧
    (∀ d ∈ p.decls, d.env.startsWithLetter ∧ d.arg.startsWithLetter) ∧
    ∃ m, p.toSsa = .ok m ∧
      (m.filter SsaFunction.isDefined).map (fun f => renderParams true 0 f.params) =
        [["%x", "%0"], ["%e", "%\"a b\""], []].map (List.map Text.ofString) ∧
      ∀ f ∈ m, f.isDefined → ∃ l, f.ListedAs (SsaModule.writtenNames 0 m) f.name l ∧
        l.InSsaForm f := by
  intro p
  have hnodup : (p.decls.map Decl.name).Nodup := by
    unfold p
    decide +kernel
  have hletters : ∀ d ∈ p.decls, d.env.startsWithLetter ∧ d.arg.startsWithLetter := by
    unfold p
    decide +kernel
  have hparams : p.toSsa.map (fun m => (m.filter SsaFunction.isDefined).map
      fun f => renderParams true 0 f.params) =
        .ok ([["%x", "%0"], ["%e", "%\"a b\""], []].map (List.map Text.ofString)) := by
    unfold p
    decide +kernel
  obtain ⟨m, htoSsa, hparams⟩ := Except.exists_of_map_ok hparams
  exact ⟨hnodup, hletters, m, htoSsa, hparams.symm, fun f hf hdefined =>
    (toSsa_in_ssa_form hnodup hletters htoSsa).2 f hf hdefined _ _⟩

end Program

end FlatClosure
