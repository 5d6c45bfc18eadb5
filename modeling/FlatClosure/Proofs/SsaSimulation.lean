/-
Generated LLVM code computes what evaluation computes.

A binding is the operand that holds its value, which an operand keeps while the
block runs.

* `Instr.length_results_execAll`: instructions add as many results as they have.
* `SsaLater`: a later state of the same block; results are only added, and the
  heap is extended.
* `execAll_applyInstrs`, `execAll_allocInstrs`, `exists_execAll_fillInstrs`: what
  the fixed sequences of instructions do. An environment is filled slot by slot
  after it was allocated.
* `Computes`: instructions run and their operand holds a stored value.
* `OperandsStored`: the operands of a frame hold its values.
* `Expr.toSsa_simulates`: where evaluation gives a value, the instructions
  compute it.
* `SsaCallsMatch`, `ssaCallsMatch_call`: calls give what applications give.
-/
import FlatClosure.Proofs.Evaluation
import FlatClosure.Proofs.SsaSemantics
import FlatClosure.Proofs.SsaTranslation

namespace FlatClosure

/-! ### Results -/

/-- An operand keeps what it stands for when results are added. -/
lemma Operand.value?_append {operand : Operand} {params results : List SsaValue}
    {value : SsaValue} (h : operand.value? params results = some value)
    (more : List SsaValue) : operand.value? params (results ++ more) = some value := by
  cases operand with
  | result index =>
      have hlt : index < results.length := (List.getElem?_eq_some_iff.mp h).1
      rw [value?, List.getElem?_append_left hlt]
      exact h
  | _ => exact h

namespace Operand

variable (params results more : List SsaValue)

@[simp] lemma value?_func (index : Nat) :
    (func index).value? params results = some (.code index) := rfl

@[simp] lemma value?_int (value : Int) : (int value).value? params results = some (.int value) :=
  rfl

@[simp] lemma value?_null : null.value? params results = some (.slot none 0) := rfl

/-- The first of the results that were added. -/
@[simp] lemma value?_result_length :
    (result results.length).value? params (results ++ more) = more[0]? := by
  rw [value?, List.getElem?_append_right (Nat.le_refl _), Nat.sub_self]

@[simp] lemma value?_result_length_add (k : Nat) :
    (result (results.length + k)).value? params (results ++ more) = more[k]? := by
  rw [value?, List.getElem?_append_right (Nat.le_add_right _ _), Nat.add_sub_cancel_left]

end Operand

namespace Instr

variable {pointerSize : Nat} {call : SsaCall} {params : List SsaValue} {s s' : SsaState}

/-- An instruction adds one result or none. -/
lemma length_results_exec {instr : Instr} (h : instr.exec pointerSize call params s = some s') :
    s'.results.length = s.results.length + resultCount [instr] := by
  obtain ⟨⟨value, world⟩, -, h⟩ := Option.bind_eq_some_iff.mp h
  dsimp only at h
  split_ifs at h with hvalue
  obtain rfl := Option.some.inj h
  rw [resultCount, List.countP_singleton, ← hvalue, List.length_append]
  cases value <;> rfl

lemma execAll_append (s : SsaState) (instrs instrs' : List Instr) :
    execAll pointerSize call params s (instrs ++ instrs') =
      (execAll pointerSize call params s instrs).bind fun s' =>
        execAll pointerSize call params s' instrs' := by
  induction instrs generalizing s with
  | nil => rfl
  | cons instr instrs ih =>
      simp only [List.cons_append, execAll, Option.bind_eq_bind, ih, Option.bind_assoc]

/-- Instructions add as many results as they have. -/
lemma length_results_execAll {instrs : List Instr}
    (h : execAll pointerSize call params s instrs = some s') :
    s'.results.length = s.results.length + resultCount instrs := by
  induction instrs generalizing s with
  | nil =>
      obtain rfl := Option.some.inj h
      rfl
  | cons instr instrs ih =>
      obtain ⟨s₁, h₁, h₂⟩ := Option.bind_eq_some_iff.mp h
      rw [ih h₂, length_results_exec h₁, Nat.add_assoc, resultCount, resultCount, resultCount,
        ← List.countP_append, List.singleton_append]

lemma exec_of_effect {instr : Instr} (value : Option SsaValue) (world : SsaWorld)
    (h : instr.effect pointerSize call params s = some (value, world))
    (hvalue : value.isSome = instr.hasResult) :
    instr.exec pointerSize call params s = some ⟨s.results ++ value.toList, world⟩ := by
  simp [exec, h, hvalue]

/-- An instruction that has a result adds it to the results of a sequence. -/
lemma exec_push {instr : Instr} {results more : List SsaValue} {world : SsaWorld}
    (value : SsaValue) (world' : SsaWorld)
    (h : instr.effect pointerSize call params ⟨results ++ more, world⟩ = some (some value, world'))
    (hresult : instr.hasResult = true) :
    instr.exec pointerSize call params ⟨results ++ more, world⟩ =
      some ⟨results ++ (more ++ [value]), world'⟩ := by
  rw [exec_of_effect (some value) world' h hresult.symm, List.append_assoc]
  rfl

lemma execAll_cons {instr : Instr} (h : instr.exec pointerSize call params s = some s')
    (instrs : List Instr) : execAll pointerSize call params s (instr :: instrs) =
      execAll pointerSize call params s' instrs := by
  rw [execAll, h]
  rfl

end Instr

/-! ### Later states -/

/-- Whether `s'` is a later state of the same block than `s`, and nothing was
printed in between. -/
structure SsaLater (s s' : SsaState) : Prop where
  results : s.results <+: s'.results
  heap : s.world.heap.Extends s'.world.heap
  printed : s'.world.printed = s.world.printed

namespace SsaLater

variable {s s' s'' : SsaState}

lemma refl (s : SsaState) : SsaLater s s := ⟨List.prefix_rfl, .refl _, rfl⟩

lemma trans (h : SsaLater s s') (h' : SsaLater s' s'') : SsaLater s s'' :=
  ⟨h.results.trans h'.results, h.heap.trans h'.heap, h'.printed.trans h.printed⟩

lemma value? (h : SsaLater s s') {params : List SsaValue} {operand : Operand} {value : SsaValue}
    (hvalue : operand.value? params s.results = some value) :
    operand.value? params s'.results = some value := by
  obtain ⟨more, hmore⟩ := h.results
  exact hmore ▸ Operand.value?_append hvalue more

end SsaLater

/-! ### Support functions -/

/-- Whether the functions that are only declared behave as the support code and
the library do. -/
def Provides (pointerSize : Nat) (call : SsaCall) : Prop :=
  ∀ index f, supportFunctions[index]? = some f → call index = supportCall pointerSize f.name

section

variable {pointerSize : Nat} {call : SsaCall}

lemma Provides.buildInt (h : Provides pointerSize call) (value : Int32) (world : SsaWorld) :
    call 1 [.int value.toInt] world =
      some (some (.record (world.heap.buildInt value).1),
        { world with heap := (world.heap.buildInt value).2 }) := by
  have hvalue : Int32.ofInt value.toInt = value := Int32.ofInt_toInt value
  rw [h 1 _ rfl]
  change some (some (SsaValue.record (world.heap.buildInt (Int32.ofInt value.toInt)).1),
    { world with heap := (world.heap.buildInt (Int32.ofInt value.toInt)).2 }) = _
  rw [hvalue]

lemma Provides.buildClosure (h : Provides pointerSize call) (code : Nat) (env : Option Address)
    (world : SsaWorld) :
    call 0 [.code code, .slot env 0] world =
      some (some (.record (world.heap.buildClosure code env).1),
        { world with heap := (world.heap.buildClosure code env).2 }) := by
  rw [h 0 _ rfl]
  rfl

lemma Provides.print (h : Provides pointerSize call) {a : Address} {world : SsaWorld}
    {text : Text} (htext : world.heap.printed a = some text) :
    call 2 [.record a] world =
      some (none, { world with printed := world.printed ++ text }) := by
  rw [h 2 _ rfl]
  change (world.heap.printed a).bind _ = _
  rw [htext]
  rfl

lemma Provides.malloc (h : Provides pointerSize call) (hsize : 0 < pointerSize) (size : Nat)
    (world : SsaWorld) :
    call 3 [.int (pointerSize * size)] world =
      some (some (.memory (world.heap.newArray (List.replicate size none)).1),
        { world with heap := (world.heap.newArray (List.replicate size none)).2 }) := by
  have hcount : ((pointerSize : Int) * size).toNat / pointerSize = size := by
    rw [← Int.natCast_mul, Int.toNat_natCast, Nat.mul_div_cancel_left size hsize]
  rw [h 3 _ rfl]
  change some (some (SsaValue.memory (world.heap.newArray (List.replicate
    (((pointerSize : Int) * size).toNat / pointerSize) none)).1), { world with heap :=
      (world.heap.newArray (List.replicate
        (((pointerSize : Int) * size).toNat / pointerSize) none)).2 }) = _
  rw [hcount]

end

/-! ### Fixed sequences of instructions -/

section

variable {pointerSize : Nat} {call : SsaCall} {params : List SsaValue} {s s' : SsaState}

/-- The field pointers of a closure are taken first, then both fields are read,
and then the code is called. -/
lemma execAll_applyInstrs {callee argument : Operand} {target a : Address} {code : Nat}
    {env : Option Address} {result : SsaValue} {world : SsaWorld}
    (hcallee : callee.value? params s.results = some (.record target))
    (harg : argument.value? params s.results = some (.record a))
    (hrecord : s.world.heap.record? target = some (.closure code env))
    (hcall : call code [.slot env 0, .record a] s.world = some (some result, world)) :
    Instr.execAll pointerSize call params s (applyInstrs s.results.length callee argument) =
      some ⟨s.results ++ [.field target 1, .field target 2, .code code, .slot env 0, result],
        world⟩ := by
  have hcallee' := Operand.value?_append hcallee
  have harg' := Operand.value?_append harg
  rw [applyInstrs,
    Instr.execAll_cons (Instr.exec_of_effect (some (.field target 1)) s.world
      (by simp [Instr.effect, hcallee, elementAt?]) rfl),
    Instr.execAll_cons (Instr.exec_push (.field target 2) s.world
      (by simp [Instr.effect, hcallee', elementAt?]) rfl),
    Instr.execAll_cons (Instr.exec_push (.code code) s.world
      (by simp [Instr.effect, Heap.load?, Ty.codeRef, hrecord]) rfl),
    Instr.execAll_cons (Instr.exec_push (.slot env 0) s.world
      (by simp [Instr.effect, Heap.load?, Ty.slotRef, Ty.valueRef, hrecord]) rfl),
    Instr.execAll_cons (Instr.exec_push result world
      (by simp [Instr.effect, harg', hcall]) rfl)]
  rfl

variable (params s) in
/-- The size of a slot is how far the slot after the null pointer is from it. -/
lemma execAll_allocInstrs (hprovides : Provides pointerSize call) (hsize : 0 < pointerSize)
    (size : Nat) :
    Instr.execAll pointerSize call params s (allocInstrs s.results.length size) =
      some ⟨s.results ++ [.slot none 1, .int pointerSize, .int (pointerSize * size),
          .memory (s.world.heap.newArray (List.replicate size none)).1,
          .slot (some (s.world.heap.newArray (List.replicate size none)).1) 0],
        { s.world with heap := (s.world.heap.newArray (List.replicate size none)).2 }⟩ := by
  have hmalloc := hprovides.malloc hsize size s.world
  set allocated := s.world.heap.newArray (List.replicate size none)
  rw [allocInstrs,
    Instr.execAll_cons (Instr.exec_of_effect (some (.slot none 1)) s.world
      (by simp [Instr.effect, elementAt?, Ty.valueRef]) rfl),
    Instr.execAll_cons (Instr.exec_push (.int pointerSize) s.world
      (by simp [Instr.effect]) rfl),
    Instr.execAll_cons (Instr.exec_push (.int (pointerSize * size)) s.world
      (by simp [Instr.effect]) rfl),
    Instr.execAll_cons (Instr.exec_push (.memory allocated.1)
      { s.world with heap := allocated.2 } (by simp [Instr.effect, allocator, hmalloc]) rfl),
    Instr.execAll_cons (Instr.exec_push (.slot (some allocated.1) 0)
      { s.world with heap := allocated.2 } (by simp [Instr.effect]) rfl)]
  rfl

lemma resultCount_fillInstrs (env : Operand) (start slot : Nat) (values : List Operand) :
    resultCount (fillInstrs env start slot values) = values.length := by
  induction values generalizing start slot with
  | nil => rfl
  | cons value values ih =>
      rw [fillInstrs, resultCount, List.countP_cons_of_pos rfl,
        List.countP_cons_of_neg (by simp [Instr.hasResult]), ← resultCount, ih, List.length_cons]

/-- The operands stand for records. -/
def HoldRecords (params results : List SsaValue) (operands : List Operand)
    (addresses : List Address) : Prop :=
  List.Forall₂ (fun operand a => operand.value? params results = some (.record a))
    operands addresses

lemma HoldRecords.mono {operands : List Operand} {addresses : List Address}
    (h : HoldRecords params s.results operands addresses) (hs : SsaLater s s') :
    HoldRecords params s'.results operands addresses :=
  List.Forall₂.imp (fun _ _ ha => hs.value? ha) h

variable (pointerSize call) in
/-- The slots of an array are filled from the left. -/
lemma exists_execAll_fillInstrs (filled : List Address) {env : Operand} {array : Address}
    {operands : List Operand} {addresses : List Address}
    (henv : env.value? params s.results = some (.slot (some array) 0))
    (hoperands : HoldRecords params s.results operands addresses)
    (harray : s.world.heap.arrays[array]? =
      some (filled.map some ++ List.replicate operands.length none)) :
    ∃ s', Instr.execAll pointerSize call params s
        (fillInstrs env s.results.length filled.length operands) = some s' ∧ SsaLater s s' ∧
      s'.world.heap.arrays[array]? = some ((filled ++ addresses).map some) := by
  induction operands generalizing s addresses filled with
  | nil =>
      obtain rfl := List.forall₂_nil_left_iff.mp hoperands
      exact ⟨s, rfl, .refl s, by simpa using harray⟩
  | cons operand operands ih =>
      obtain ⟨a, addresses, ha, htail, rfl⟩ := List.forall₂_cons_left_iff.mp hoperands
      obtain ⟨h, hset, hext, harray'⟩ := Heap.exists_setCell? harray a
      -- one slot is filled, the others are filled from the state after it
      set s₁ : SsaState :=
        ⟨s.results ++ [.slot (some array) filled.length], { s.world with heap := h }⟩
      have hlater₁ : SsaLater s s₁ := ⟨List.prefix_append _ _, hext, rfl⟩
      obtain ⟨s', hexec, hlater, harray''⟩ := ih (filled ++ [a]) (hlater₁.value? henv)
        (HoldRecords.mono htail hlater₁) harray'
      refine ⟨s', ?_, hlater₁.trans hlater, by simpa using harray''⟩
      have ha' := Operand.value?_append ha
      have hlength : s₁.results.length = s.results.length + 1 := by simp [s₁]
      rw [hlength, List.length_append, List.length_singleton] at hexec
      rw [fillInstrs,
        Instr.execAll_cons (Instr.exec_of_effect (some (.slot (some array) filled.length)) s.world
          (by simp [Instr.effect, henv, elementAt?, Ty.valueRef]) rfl),
        Instr.execAll_cons (Instr.exec_of_effect none { s.world with heap := h }
          (by simp [Instr.effect, ha', Heap.store?, hset]) rfl), ← hexec]
      simp [s₁]

/-- The instructions that prepare an environment allocate an array and fill
it. -/
lemma exists_execAll_environment (hprovides : Provides pointerSize call)
    (hsize : 0 < pointerSize) {operands : List Operand} {addresses : List Address}
    (hoperands : HoldRecords params s.results operands addresses) :
    ∃ s' array, Instr.execAll pointerSize call params s
        (allocInstrs s.results.length operands.length ++
          fillInstrs (.result (s.results.length + 4)) (s.results.length + 5) 0 operands) =
        some s' ∧ SsaLater s s' ∧
      s'.results.length = s.results.length + 5 + operands.length ∧
      (Operand.result (s.results.length + 4)).value? params s'.results =
        some (.slot (some array) 0) ∧
      s'.world.heap.arrays[array]? = some (addresses.map some) := by
  have halloc := execAll_allocInstrs params s hprovides hsize operands.length
  have hext := s.world.heap.extends_newArray (List.replicate operands.length none)
  have harray := s.world.heap.arrays_newArray (List.replicate operands.length none)
  set allocated := s.world.heap.newArray (List.replicate operands.length none)
  set s₁ : SsaState := ⟨s.results ++ [.slot none 1, .int pointerSize,
      .int (pointerSize * operands.length), .memory allocated.1, .slot (some allocated.1) 0],
    { s.world with heap := allocated.2 }⟩
  have hlater₁ : SsaLater s s₁ := ⟨List.prefix_append _ _, hext, rfl⟩
  have hlength₁ : s₁.results.length = s.results.length + 5 := by simp [s₁]
  have henv : (Operand.result (s.results.length + 4)).value? params s₁.results =
      some (.slot (some allocated.1) 0) :=
    Operand.value?_result_length_add params s.results _ 4
  obtain ⟨s', hexec, hlater, harray'⟩ := exists_execAll_fillInstrs pointerSize call [] henv
    (hoperands.mono hlater₁) harray
  have hlength := Instr.length_results_execAll hexec
  rw [hlength₁] at hexec hlength
  rw [resultCount_fillInstrs] at hlength
  refine ⟨s', allocated.1, ?_, hlater₁.trans hlater, hlength, hlater.value? henv, harray'⟩
  rw [Instr.execAll_append, halloc]
  exact hexec

variable (pointerSize call params) in
/-- The instructions run from `s`, and their operand holds the value then. -/
def Computes (Code : Decl → Nat → Prop) (s : SsaState) (code : SsaCode) (v : Value) : Prop :=
  ∃ s' a, Instr.execAll pointerSize call params s code.instrs = some s' ∧ SsaLater s s' ∧
    code.value.value? params s'.results = some (.record a) ∧ Stored Code s'.world.heap v a

/-- An integer is built by one call. -/
lemma computes_int (hprovides : Provides pointerSize call) {Code : Decl → Nat → Prop}
    (value : Int32) :
    Computes pointerSize call params Code s
      ⟨[.call .valueRef intBuilder [⟨.i32, .int value.toInt⟩]], .result s.results.length⟩
      (.int value) := by
  have hbuild := hprovides.buildInt value s.world
  set built := s.world.heap.buildInt value
  refine ⟨_, built.1, Instr.execAll_cons (Instr.exec_of_effect (some (.record built.1))
      { s.world with heap := built.2 } (by simp [Instr.effect, intBuilder, hbuild]) rfl) [],
    ⟨List.prefix_append _ _, s.world.heap.extends_newRecord _, rfl⟩,
    Operand.value?_result_length params s.results _, stored_buildInt s.world.heap value⟩

/-- A captured value is loaded from its slot. -/
lemma computes_slot {Code : Decl → Nat → Prop} {env : Operand} {array : Option Address}
    {values : List Value} {i : Nat} {v : Value}
    (henv : env.value? params s.results = some (.slot array 0))
    (hstored : StoredEnv Code s.world.heap values array) (hv : values[i]? = some v) :
    Computes pointerSize call params Code s
      ⟨[.elementPtr .valueRef ⟨.slotRef, env⟩ [⟨.i64, .int i⟩],
        .load .valueRef ⟨.slotRef, .result s.results.length⟩], .result (s.results.length + 1)⟩
      v := by
  obtain ⟨a, ha, hstored⟩ := hstored i v hv
  refine ⟨⟨s.results ++ [.slot array i, .record a], s.world⟩, a, ?_,
    ⟨List.prefix_append _ _, .refl _, rfl⟩, Operand.value?_result_length_add params s.results _ 1,
    hstored⟩
  rw [Instr.execAll_cons (Instr.exec_of_effect (some (.slot array i)) s.world
      (by simp [Instr.effect, henv, elementAt?, Ty.valueRef]) rfl),
    Instr.execAll_cons (Instr.exec_push (.record a) s.world
      (by simp [Instr.effect, Heap.load?, Ty.valueRef, ha]) rfl)]
  rfl

/-- A closure is built over the environment of the captured values, or over the
null pointer. -/
lemma computes_closureCode (hprovides : Provides pointerSize call)
    (hsize : 0 < pointerSize) {Code : Decl → Nat → Prop} {d : Decl} {index : Nat}
    (hcode : Code d index) {operands : List Operand} {values : List Value}
    {addresses : List Address} (hoperands : HoldRecords params s.results operands addresses)
    (hstored : List.Forall₂ (Stored Code s.world.heap) values addresses) :
    Computes pointerSize call params Code s
      (closureCode s.results.length (.func index) operands) (.closure d values) := by
  cases operands with
  | nil =>
      obtain rfl := List.forall₂_nil_left_iff.mp hoperands
      obtain rfl := List.forall₂_nil_right_iff.mp hstored
      have hbuild := hprovides.buildClosure index none s.world
      set built := s.world.heap.buildClosure index none
      exact ⟨_, built.1, Instr.execAll_cons (Instr.exec_of_effect (some (.record built.1))
          { s.world with heap := built.2 }
          (by simp [Instr.effect, closureBuilder, hbuild]) rfl) [],
        ⟨List.prefix_append _ _, s.world.heap.extends_newRecord _, rfl⟩,
        Operand.value?_result_length params s.results _,
        stored_buildClosure hcode (storedEnv_nil none)⟩
  | cons operand operands =>
      obtain ⟨s₁, array, hexec, hlater, hlength, henv, harray⟩ :=
        exists_execAll_environment hprovides hsize hoperands
      have hbuild := hprovides.buildClosure index (some array) s₁.world
      set built := s₁.world.heap.buildClosure index (some array)
      have hlater' : SsaLater s₁
          ⟨s₁.results ++ [.record built.1], { s₁.world with heap := built.2 }⟩ :=
        ⟨List.prefix_append _ _, s₁.world.heap.extends_newRecord _, rfl⟩
      refine ⟨_, built.1, ?_, hlater.trans hlater', ?_, stored_buildClosure hcode
        (storedEnv_of_array harray (hstored.imp fun _ _ ha => ha.mono hlater.heap))⟩
      · rw [closureCode, Instr.execAll_append, hexec, Option.bind_some,
          Instr.execAll_cons (Instr.exec_of_effect (some (.record built.1))
            { s₁.world with heap := built.2 }
            (by simp [Instr.effect, closureBuilder, henv, hbuild]) rfl)]
        rfl
      · rw [closureCode, ← hlength]
        exact Operand.value?_result_length params s₁.results _

end

/-! ### Stored frames -/

/-- The code of a declaration is its function, after the support functions. -/
def IndexedCode (decls : List Decl) (d : Decl) (index : Nat) : Prop :=
  ∃ k, decls[k]? = some d ∧ index = supportFunctions.length + k

/-- The operands of local names hold their values, and those of environments
the captured values. -/
structure OperandsStored (decls : List Decl) (envs scope : Operands) (params : List SsaValue)
    (f : LocalFrame) (s : SsaState) : Prop where
  value : ∀ x v, f.locals.lookup x = some v → ∃ operand a, scope.lookup x = some operand ∧
    operand.value? params s.results = some (.record a) ∧
      Stored (IndexedCode decls) s.world.heap v a
  env : ∀ x values, f.envs.lookup x = some values → ∃ operand array,
    envs.lookup x = some operand ∧ operand.value? params s.results = some (.slot array 0) ∧
      StoredEnv (IndexedCode decls) s.world.heap values array

section

variable {decls : List Decl} {envs scope : Operands} {params : List SsaValue} {f : LocalFrame}
  {s s' : SsaState}

lemma OperandsStored.mono (h : OperandsStored decls envs scope params f s)
    (hs : SsaLater s s') : OperandsStored decls envs scope params f s' := by
  refine ⟨fun x v hv => ?_, fun x values hv => ?_⟩
  · obtain ⟨operand, a, hlook, ha, hstored⟩ := h.value x v hv
    exact ⟨operand, a, hlook, hs.value? ha, hstored.mono hs.heap⟩
  · obtain ⟨operand, array, hlook, harray, hstored⟩ := h.env x values hv
    exact ⟨operand, array, hlook, hs.value? harray, hstored.mono hs.heap⟩

/-- A frame is stored below a binder if the new operand holds the bound
value. -/
lemma OperandsStored.bind (h : OperandsStored decls envs scope params f s) (name : Text)
    {operand : Operand} {v : Value} {a : Address}
    (ha : operand.value? params s.results = some (.record a))
    (hstored : Stored (IndexedCode decls) s.world.heap v a) :
    OperandsStored decls envs ((name, operand) :: scope) params (f.bind name v) s := by
  refine ⟨fun x w hw => ?_, h.env⟩
  rw [LocalFrame.bind] at hw
  by_cases hx : x = name
  · rw [hx, List.lookup_cons_self] at hw
    cases hw
    exact ⟨operand, a, by rw [hx, List.lookup_cons_self], ha, hstored⟩
  · rw [lookup_cons_of_ne hx] at hw ⊢
    exact h.value x w hw

end

/-! ### Expressions -/

/-- Calls of the code of closures give what applications give. -/
def SsaCallsMatch (decls : List Decl) (apply : Value → Value → Counted Value) (call : SsaCall) :
    Prop :=
  ∀ ⦃callee argument v : Value⦄ ⦃target a : Address⦄ ⦃world : SsaWorld⦄,
    (apply callee argument).outcome = .ok v →
    Stored (IndexedCode decls) world.heap callee target →
    Stored (IndexedCode decls) world.heap argument a →
    ∃ code env b world', world.heap.record? target = some (.closure code env) ∧
      call code [.slot env 0, .record a] world = some (some (.record b), world') ∧
      world.heap.Extends world'.heap ∧ world'.printed = world.printed ∧
      Stored (IndexedCode decls) world'.heap v b

section

variable {decls : List Decl} {apply : Value → Value → Counted Value} {pointerSize : Nat}
  {call : SsaCall} {params : List SsaValue} {ctx : SsaContext} {scope : Operands}
  {f : LocalFrame} {s s' : SsaState}

/-- What translation has to achieve for an expression. -/
def Expr.SsaSimulates (decls : List Decl) (apply : Value → Value → Counted Value)
    (pointerSize : Nat) (call : SsaCall) (params : List SsaValue) (ctx : SsaContext) (e : Expr) :
    Prop :=
  ∀ ⦃scope code f s v⦄, e.toSsa ctx s.results.length scope = .ok code →
    OperandsStored decls ctx.envs scope params f s → (e.eval decls apply f).outcome = .ok v →
    Computes pointerSize call params (IndexedCode decls) s code v

/-- The instructions of captured expressions run one after the other. -/
lemma Expr.toSsaAll_simulates {es : List Expr}
    (hes : ∀ e ∈ es, e.SsaSimulates decls apply pointerSize call params ctx)
    {instrs : List Instr} {operands : List Operand} {values : List Value}
    (htoSsa : toSsaAll ctx s.results.length scope es = .ok (instrs, operands))
    (hf : OperandsStored decls ctx.envs scope params f s)
    (heval : (evalAll decls apply f es).outcome = .ok values) :
    ∃ s' addresses, Instr.execAll pointerSize call params s instrs = some s' ∧ SsaLater s s' ∧
      HoldRecords params s'.results operands addresses ∧
      List.Forall₂ (Stored (IndexedCode decls) s'.world.heap) values addresses := by
  induction es generalizing s instrs operands values with
  | nil =>
      cases htoSsa
      cases heval
      exact ⟨s, [], rfl, .refl s, .nil, .nil⟩
  | cons e es ih =>
      obtain ⟨first, instrs', operands', hfirst, hrest, rfl, rfl⟩ :=
        exists_of_toSsaAll_cons htoSsa
      obtain ⟨value, values', hvalue, hvalues, rfl⟩ := exists_of_evalAll_cons heval
      obtain ⟨s₁, a, hexec₁, hlater₁, ha, hstored₁⟩ :=
        hes e List.mem_cons_self hfirst hf hvalue
      rw [← Instr.length_results_execAll hexec₁] at hrest
      obtain ⟨s₂, addresses, hexec₂, hlater₂, hhold, hstored₂⟩ :=
        ih (fun e' he' => hes e' (List.mem_cons_of_mem e he')) hrest (hf.mono hlater₁) hvalues
      refine ⟨s₂, a :: addresses, ?_, hlater₁.trans hlater₂, .cons (hlater₂.value? ha) hhold,
        .cons (hstored₁.mono hlater₂.heap) hstored₂⟩
      rw [Instr.execAll_append, hexec₁]
      exact hexec₂

/-- Instructions may come first. -/
lemma Computes.after {Code : Decl → Nat → Prop} {instrs : List Instr} {code : SsaCode} {v : Value}
    (hexec : Instr.execAll pointerSize call params s instrs = some s') (hs : SsaLater s s')
    (h : Computes pointerSize call params Code s' code v) :
    Computes pointerSize call params Code s ⟨instrs ++ code.instrs, code.value⟩ v := by
  obtain ⟨s'', a, hexec', hs', ha, hstored⟩ := h
  refine ⟨s'', a, ?_, hs.trans hs', ha, hstored⟩
  rw [Instr.execAll_append, hexec]
  exact hexec'

/-- An application calls the code of the callee. -/
lemma computes_applyInstrs (hcall : SsaCallsMatch decls apply call)
    {callee argument v : Value} {calleeOperand argOperand : Operand} {target a : Address}
    (htarget : calleeOperand.value? params s.results = some (.record target))
    (hcallee : Stored (IndexedCode decls) s.world.heap callee target)
    (ha : argOperand.value? params s.results = some (.record a))
    (harg : Stored (IndexedCode decls) s.world.heap argument a)
    (hv : (apply callee argument).outcome = .ok v) :
    Computes pointerSize call params (IndexedCode decls) s
      ⟨applyInstrs s.results.length calleeOperand argOperand, .result (s.results.length + 4)⟩
      v := by
  obtain ⟨code, env, b, world, hrecord, hcalled, hext, hprinted, hstored⟩ :=
    hcall hv hcallee harg
  exact ⟨_, b, execAll_applyInstrs htarget ha hrecord hcalled,
    ⟨List.prefix_append _ _, hext, hprinted⟩,
    Operand.value?_result_length_add params s.results _ 4, hstored⟩

/-- **Translated expressions compute what evaluation computes**: where an
expression has a value, its instructions run, and their operand holds the
value. -/
theorem Expr.toSsa_simulates (hprovides : Provides pointerSize call) (hsize : 0 < pointerSize)
    (hcall : SsaCallsMatch decls apply call)
    (hfuncs : ∀ name d, findDecl? decls name = some d →
      ∃ index, ctx.funcs.lookup name = some (.func index) ∧ IndexedCode decls d index)
    (e : Expr) : e.SsaSimulates decls apply pointerSize call params ctx := by
  induction e using ind with
  | num value =>
      intro scope code f s v htoSsa hf heval
      cases htoSsa
      cases heval
      exact computes_int hprovides value.toInt32
  | ref name =>
      intro scope code f s v htoSsa hf heval
      obtain ⟨operand, hlook, rfl⟩ := exists_of_toSsa_ref htoSsa
      obtain ⟨operand', a, hlook', ha, hstored⟩ := hf.value name v (lookup_of_eval_ref heval)
      cases hlook.symm.trans hlook'
      exact ⟨s, a, rfl, .refl s, ha, hstored⟩
  | slot env index =>
      intro scope code f s v htoSsa hf heval
      obtain ⟨operand, hlook, rfl⟩ := exists_of_toSsa_slot htoSsa
      obtain ⟨values, hvalues, i, rfl, hv⟩ := exists_of_eval_slot heval
      obtain ⟨operand', array, hlook', harray, hstored⟩ := hf.env env values hvalues
      cases hlook.symm.trans hlook'
      exact computes_slot harray hstored hv
  | app func arg ih =>
      intro scope code f s v htoSsa hf heval
      obtain ⟨operand, argCode, hlook, harg, rfl⟩ := exists_of_toSsa_app htoSsa
      obtain ⟨callee, argument, hcallee, hargument, hv⟩ := exists_of_eval_app heval
      obtain ⟨s₁, a, hexec, hlater, ha, hstored⟩ := ih harg hf hargument
      obtain ⟨operand', target, hlook', htarget, hcalleeStored⟩ :=
        (hf.mono hlater).value func callee hcallee
      cases hlook.symm.trans hlook'
      rw [← Instr.length_results_execAll hexec]
      exact .after hexec hlater (computes_applyInstrs hcall htarget hcalleeStored ha hstored hv)
  | closure func captured ih =>
      intro scope code f s v htoSsa hf heval
      obtain ⟨operand, instrs, operands, hlook, hall, rfl⟩ := exists_of_toSsa_closure htoSsa
      obtain ⟨d, values, hfind, hvalues, rfl⟩ := exists_of_eval_closure heval
      obtain ⟨index, hindex, hcode⟩ := hfuncs func d hfind
      cases hlook.symm.trans hindex
      obtain ⟨s₁, addresses, hexec, hlater, hhold, hstored⟩ :=
        toSsaAll_simulates ih hall hf hvalues
      rw [← Instr.length_results_execAll hexec]
      exact .after hexec hlater (computes_closureCode hprovides hsize hcode hhold hstored)
  | letIn name bind body ihb ih =>
      intro scope code f s v htoSsa hf heval
      obtain ⟨bound, rest, hbound, hrest, rfl⟩ := exists_of_toSsa_letIn htoSsa
      obtain ⟨value, hvalue, hv⟩ := exists_of_eval_letIn heval
      obtain ⟨s₁, a, hexec, hlater, ha, hstored⟩ := ihb hbound hf hvalue
      rw [← Instr.length_results_execAll hexec] at hrest
      exact .after hexec hlater (ih hrest ((hf.mono hlater).bind name ha hstored) hv)
  | missing =>
      intro scope code f s v htoSsa
      exact absurd htoSsa (by simp [toSsa])

end

/-! ### Functions -/

/-- Whether a module has the support functions, and behind them the functions of
declarations with distinct names. -/
structure SsaModule.Implements (m : SsaModule) (decls : List Decl) : Prop where
  nodup : (decls.map Decl.name).Nodup
  support : ∀ (index : Nat) f, supportFunctions[index]? = some f → m[index]? = some f
  function : ∀ (k : Nat) d, decls[k]? = some d → ∃ block,
    d.toSsa (functionOperands decls) = .ok block ∧
      m[supportFunctions.length + k]? = some (d.ssaFunction block)

namespace SsaModule.Implements

variable {m : SsaModule} {decls : List Decl}

lemma provides (h : m.Implements decls) (pointerSize fuel : Nat) :
    Provides pointerSize (m.call pointerSize fuel) := by
  intro index f hf
  have hdeclared : ∀ f ∈ supportFunctions, f.blocks = [] := by simp [supportFunctions]
  have hblocks := hdeclared f (List.mem_of_getElem? hf)
  funext args world
  cases fuel <;> simp [SsaModule.call, SsaModule.enter, h.support index f hf, hblocks]

/-- The operand of a declaration that is found leads to its function. -/
lemma exists_lookup (h : m.Implements decls) (name : Text) (d : Decl)
    (hfind : findDecl? decls name = some d) :
    ∃ index, (functionOperands decls).lookup name = some (.func index) ∧
      IndexedCode decls d index := by
  obtain ⟨hd, rfl⟩ := mem_of_findDecl? hfind
  obtain ⟨k, hk⟩ := List.getElem?_of_mem hd
  exact ⟨_, lookup_functionOperands h.nodup hk, k, hk, rfl⟩

/-- Expressions are simulated in the functions of a module. -/
lemma simulates (h : m.Implements decls) {pointerSize : Nat} (hsize : 0 < pointerSize)
    {apply : Value → Value → Counted Value} {fuel : Nat}
    (hcall : SsaCallsMatch decls apply (m.call pointerSize fuel)) (e : Expr)
    (params : List SsaValue) (envs : Operands) :
    e.SsaSimulates decls apply pointerSize (m.call pointerSize fuel) params
      ⟨functionOperands decls, envs⟩ :=
  e.toSsa_simulates (h.provides pointerSize fuel) hsize hcall h.exists_lookup

end SsaModule.Implements

/-- The frame in which the body of a function is evaluated. -/
lemma operandsStored_called (d : Decl) {decls : List Decl} {argument : Value}
    {values : List Value} {env : Option Address} {a : Address} {world : SsaWorld}
    (ha : Stored (IndexedCode decls) world.heap argument a)
    (henv : StoredEnv (IndexedCode decls) world.heap values env) :
    OperandsStored decls [(d.env, .param 0)] [(d.arg, .param 1)] [.slot env 0, .record a]
      ⟨[(d.arg, argument)], [(d.env, values)]⟩ ⟨[], world⟩ := by
  refine ⟨fun x v hv => ?_, fun x vs hv => ?_⟩
  · obtain ⟨rfl, rfl⟩ := eq_of_lookup_singleton hv
    exact ⟨.param 1, a, List.lookup_cons_self, rfl, ha⟩
  · obtain ⟨rfl, rfl⟩ := eq_of_lookup_singleton hv
    exact ⟨.param 0, env, List.lookup_cons_self, rfl, henv⟩

/-- **Calls give what applications give**, in a module of the functions of all
declarations: by induction on how many applications may be nested. -/
theorem ssaCallsMatch_call {m : SsaModule} {decls : List Decl} (hm : m.Implements decls)
    {pointerSize : Nat} (hsize : 0 < pointerSize) (limit : Int) {left fuel : Nat}
    (hfuel : left ≤ fuel) :
    SsaCallsMatch decls (Value.apply decls limit left) (m.call pointerSize fuel) := by
  induction left generalizing fuel with
  | zero =>
      intro callee argument v target a world hv hcallee harg
      obtain ⟨d, values, k, -, hk, -⟩ := Value.exists_of_apply hv
      exact absurd hk (by omega)
  | succ left ih =>
      intro callee argument v target a world hv hcallee harg
      obtain ⟨d, values, k, rfl, hk, heval⟩ := Value.exists_of_apply hv
      obtain rfl : left = k := by omega
      obtain ⟨fuel, rfl⟩ : ∃ n, fuel = n + 1 := ⟨fuel - 1, by omega⟩
      obtain ⟨code, env, hrecord, ⟨i, hi, rfl⟩, henv⟩ := stored_closure_iff.mp hcallee
      obtain ⟨block, hblock, hfunction⟩ := hm.function i d hi
      obtain ⟨body, hbody, hblock⟩ := Except.exists_of_bind_ok hblock
      obtain rfl := Except.ok.inj hblock
      have hsim := hm.simulates hsize (ih (Nat.le_of_succ_le_succ hfuel)) d.body
        [.slot env 0, .record a] [(d.env, .param 0)]
      obtain ⟨s, b, hexec, hlater, hb, hstored⟩ :=
        hsim (s := ⟨[], world⟩) hbody (operandsStored_called d harg henv) heval
      refine ⟨_, env, b, s.world, hrecord, ?_, hlater.heap, hlater.printed, hstored⟩
      simp [SsaModule.call, SsaModule.enter, hfunction, Decl.ssaFunction, Decl.ssaParams,
        Block.run, hexec, hb]

end FlatClosure
