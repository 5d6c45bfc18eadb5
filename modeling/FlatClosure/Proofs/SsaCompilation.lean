/-
Compilation to LLVM prints what evaluation prints.

* `ssaModule`: the module of blocks for all declarations and of an entry.
* `implements_ssaModule`, `exists_findIdx?_main`: its functions are found.
* `Tree.exists_toSsa`: a closed tree has such a module;
  `Tree.free_eq_nil_of_toSsa`: no other tree has a module.
* `Tree.execute_toSsa`: it prints what the program of the tree prints.
-/
import FlatClosure.Proofs.Conversion
import FlatClosure.Proofs.SsaSimulation
import FlatClosure.Target.Basic

namespace FlatClosure

/-! ### The functions of a module -/

/-- The entry that prints a value. -/
def SsaCode.entry (code : SsaCode) : SsaFunction :=
  ⟨"main", .i32, [], [⟨code.instrs ++ [.call .void valuePrinter [⟨.valueRef, code.value⟩]],
    ⟨.i32, .int 0⟩⟩]⟩

/-- The module in which every declaration has its block. -/
def ssaModule (decls : List Decl) (blocks : List Block) (code : SsaCode) : SsaModule :=
  supportFunctions ++ (decls.zip blocks).map (fun q => q.1.ssaFunction q.2) ++ [code.entry]

/-- Whether the declarations are translated to the blocks. -/
def AreBlocksOf (decls : List Decl) (blocks : List Block) : Prop :=
  List.Forall₂ (fun d block => d.toSsa (functionOperands decls) = .ok block) decls blocks

section

variable {decls : List Decl} {blocks : List Block}

/-- A module has the function of every declaration. -/
lemma implements_ssaModule (hnodup : (decls.map Decl.name).Nodup)
    (hblocks : AreBlocksOf decls blocks) (code : SsaCode) :
    (ssaModule decls blocks code).Implements decls := by
  refine ⟨hnodup, fun index f hf => ?_, fun k d hd => ?_⟩
  · have hlt := (List.getElem?_eq_some_iff.mp hf).1
    rw [ssaModule, List.append_assoc, List.getElem?_append_left hlt, hf]
  · obtain ⟨hlt, rfl⟩ := List.getElem?_eq_some_iff.mp hd
    have hlt' : k < blocks.length := hblocks.length_eq ▸ hlt
    refine ⟨blocks[k], (List.forall₂_iff_get.mp hblocks).2 k hlt hlt', ?_⟩
    rw [ssaModule, List.append_assoc, List.getElem?_append_right (Nat.le_add_right _ _),
      Nat.add_sub_cancel_left, List.getElem?_append_left (by simp [hlt, hlt'])]
    simp [hlt, hlt']

lemma names_ssaFunction (hblocks : AreBlocksOf decls blocks) :
    ((decls.zip blocks).map fun q => q.1.ssaFunction q.2).map SsaFunction.name =
      decls.map Decl.name := by
  nth_rewrite 2 [← List.map_fst_zip hblocks.length_eq.le]
  rw [List.map_map, List.map_map]
  rfl

lemma names_ssaModule (hblocks : AreBlocksOf decls blocks) (code : SsaCode) :
    (ssaModule decls blocks code).map SsaFunction.name =
      supportFunctions.map SsaFunction.name ++ decls.map Decl.name ++ [("main" : Text)] := by
  rw [ssaModule, List.map_append, List.map_append, names_ssaFunction hblocks]
  rfl

lemma ssaFunctions_zip (hnodup : (decls.map Decl.name).Nodup)
    (hblocks : AreBlocksOf decls blocks) :
    ssaFunctions [] (decls.zip blocks) =
      (decls.zip blocks).map fun q => q.1.ssaFunction q.2 := by
  refine ssaFunctions_eq ?_ fun q hq => absurd hq List.not_mem_nil
  rw [← Function.comp_def, ← List.map_map, List.map_fst_zip hblocks.length_eq.le]
  exact hnodup

/-- The entry is found behind all other functions. -/
lemma exists_findIdx?_main {code : SsaCode}
    (hnodup : ((ssaModule decls blocks code).map SsaFunction.name).Nodup) :
    ∃ index, (ssaModule decls blocks code).findIdx? (·.name == ("main" : Text)) = some index ∧
      (ssaModule decls blocks code)[index]? = some code.entry := by
  rw [ssaModule, List.map_append, List.nodup_append'] at hnodup
  rw [ssaModule]
  set fs := supportFunctions ++ (decls.zip blocks).map (fun q => q.1.ssaFunction q.2)
  have hnone : fs.findIdx? (·.name == ("main" : Text)) = none := by
    refine List.findIdx?_eq_none_iff.mpr fun f hf => beq_eq_false_iff_ne.mpr fun heq => ?_
    exact hnodup.2.2 (List.mem_map_of_mem hf) (heq ▸ List.mem_singleton_self _)
  refine ⟨fs.length, ?_, List.getElem?_concat_length⟩
  rw [List.findIdx?_append, hnone]
  simp [SsaCode.entry]

end

/-! ### The module of a tree -/

namespace Tree

variable {t : Tree}

/-- No two functions of a module have one name: minted names are distinct, and
the support code has none. -/
lemma nodup_names_ssaModule {blocks : List Block}
    (hblocks : AreBlocksOf t.toProgram.decls blocks) (code : SsaCode) :
    ((ssaModule t.toProgram.decls blocks code).map SsaFunction.name).Nodup := by
  rw [names_ssaModule hblocks, (List.perm_append_comm.append_right _).nodup_iff,
    List.append_assoc, List.nodup_append']
  exact ⟨t.nodup_names_toProgram, by decide, t.disjoint_names_toProgram (by decide)⟩

/-- The module of a closed tree: a function for each declaration, and the
entry. -/
lemma exists_toSsa (hclosed : t.free = []) {e : Expr} (he : t.toProgram.entry = .ok e) :
    ∃ blocks code, t.toProgram.toSsa = .ok (ssaModule t.toProgram.decls blocks code) ∧
      AreBlocksOf t.toProgram.decls blocks ∧
      e.toSsa ⟨functionOperands t.toProgram.decls, []⟩ 0 [] = .ok code := by
  have hnodup := t.nodup_names_toProgram
  have hwf := t.declsWellFormed_toProgram
  have hentry := wellFormed_entry_toProgram hclosed he
  rw [Program.toSsa, he]
  generalize t.toProgram.decls = decls at *
  have hblock : ∀ d ∈ decls, ∃ block, d.toSsa (functionOperands decls) = .ok block := by
    intro d hd
    obtain ⟨earlier, hearlier, hbody⟩ := hwf.exists_of_mem hd
    exact Decl.exists_toSsa hnodup hearlier hbody
  obtain ⟨blocks, hmapM, hblocks⟩ := Except.exists_mapM_ok hblock
  obtain ⟨code, hcode⟩ := e.exists_toSsa ⟨functionOperands decls, []⟩ hentry
    (fun d hd => exists_lookup_functionOperands hnodup hd)
    (fun q hq => absurd hq List.not_mem_nil) (fun x hx => absurd hx List.not_mem_nil) 0
  have hmain : entryToSsa (functionOperands decls) e = .ok code.entry := by
    rw [entryToSsa, hcode]
    rfl
  refine ⟨blocks, code, ?_, hblocks, hcode⟩
  dsimp only [Except.ok_bind]
  rw [hmapM, Except.ok_bind, hmain, Except.ok_bind, ssaFunctions_zip hnodup hblocks]
  rfl

/-- Only a closed tree has a module: the entry has no operand for a free name. -/
lemma free_eq_nil_of_toSsa {m : SsaModule} (hm : t.toProgram.toSsa = .ok m) : t.free = [] := by
  obtain ⟨e, he, hm⟩ := Except.exists_of_bind_ok hm
  obtain ⟨blocks, -, hm⟩ := Except.exists_of_bind_ok hm
  obtain ⟨main, hmain, -⟩ := Except.exists_of_bind_ok hm
  obtain ⟨code, hcode, -⟩ := Except.exists_of_bind_ok hmain
  have hentry : e.free = [] := by
    refine List.eq_nil_iff_forall_not_mem.mpr fun x hx => ?_
    obtain ⟨operand, hlook⟩ := Expr.exists_operand_of_mem_free hcode hx
    simp at hlook
  rw [t.free_entry he, free_hygienic] at hentry
  exact List.map_eq_nil_iff.mp hentry

/-- **A module prints what its program prints**: where a closed tree has a
value, the module runs with any size of pointers and any stack that is deep
enough for the evaluation. -/
theorem execute_toSsa (hclosed : t.free = []) {m : SsaModule} (hm : t.toProgram.toSsa = .ok m)
    {limit : Int} {out : Text} (hrun : t.toProgram.runUnder limit = .ok out)
    {pointerSize : Nat} (hsize : 0 < pointerSize) {fuel : Nat} (hfuel : limit.toNat ≤ fuel) :
    m.execute pointerSize fuel = some out := by
  obtain ⟨e, v, hentry, rfl, heval⟩ := Program.exists_of_runUnder hrun
  obtain ⟨blocks, code, htoSsa, hblocks, hcode⟩ := exists_toSsa hclosed hentry
  obtain rfl := Except.ok.inj (hm.symm.trans htoSsa)
  have hnames := nodup_names_ssaModule hblocks code
  have himplements := implements_ssaModule t.nodup_names_toProgram hblocks code
  generalize t.toProgram.decls = decls at *
  have hprovides := himplements.provides pointerSize fuel
  have hframe : OperandsStored decls [] [] [] .empty ⟨[], ⟨.empty, []⟩⟩ :=
    ⟨fun x v hv => absurd hv (by simp [LocalFrame.empty]),
      fun x values hv => absurd hv (by simp [LocalFrame.empty])⟩
  have hsim := himplements.simulates hsize (ssaCallsMatch_call himplements hsize limit hfuel) e
    [] []
  obtain ⟨s, a, hexec, hlater, ha, hstored⟩ :=
    hsim (s := ⟨[], ⟨.empty, []⟩⟩) hcode hframe heval
  have hprint := hprovides.print hstored.printed_eq
  obtain ⟨index, hindex, hmain⟩ := exists_findIdx?_main hnames
  have hcall : (ssaModule decls blocks code).call pointerSize (fuel + 1) index [] ⟨.empty, []⟩ =
      some (some (.int 0), { s.world with printed := s.world.printed ++ (v.render ++ "\n") }) := by
    simp [SsaModule.call, SsaModule.enter, hmain, SsaCode.entry, Block.run, Instr.execAll_append,
      hexec, Instr.execAll, Instr.exec, Instr.effect, Instr.hasResult, valuePrinter, ha, hprint]
  rw [SsaModule.execute, if_pos hnames, hindex]
  dsimp only [Option.bind_eq_bind, Option.bind_some]
  rw [hcall, hlater.printed]
  rfl

end Tree

/-- **The generated LLVM code prints what evaluation prints.** If the program of a
closed tree prints a text under some limit of nested applications, then it has
an LLVM module, whose text is generated for it. Whatever the size of pointers,
this module prints the same, however many calls beyond the limit may be
nested. -/
theorem Target.generate_llvm_prints {t : Tree} (hclosed : t.free = []) {limit : Int} {out : Text}
    (hrun : t.toProgram.runUnder limit = .ok out) :
    ∃ m : SsaModule, t.toProgram.toSsa = .ok m ∧
      Target.llvm.generate t.toProgram = .ok m.render ∧
      ∀ pointerSize fuel, 0 < pointerSize → limit.toNat ≤ fuel →
        m.execute pointerSize fuel = some out := by
  obtain ⟨blocks, code, htoSsa, -, -⟩ := Tree.exists_toSsa hclosed t.entry_toProgram
  refine ⟨ssaModule t.toProgram.decls blocks code, htoSsa, ?_, fun pointerSize fuel hsize hfuel =>
    Tree.execute_toSsa hclosed htoSsa hrun hsize hfuel⟩
  rw [Target.generate, htoSsa]
  rfl

/-- A function that captures a value, applied below a binding of its own
parameter's name. -/
theorem Target.generate_llvm_prints_captured : ∃ (t : Tree) (m : SsaModule),
    t = .letIn "f" (.lam "x" (.lam "y" (.var "x")))
      (.letIn "x" (.app (.var "f") (.num 5)) (.app (.var "x") (.num 6))) ∧
    t.free = [] ∧ t.toProgram.runUnder 1 = .ok "5\n" ∧
    t.toProgram.toSsa = .ok m ∧ Target.llvm.generate t.toProgram = .ok m.render ∧
    ∀ pointerSize fuel, 0 < pointerSize → 1 ≤ fuel →
      m.execute pointerSize fuel = some "5\n" := by
  obtain ⟨t, ht⟩ : ∃ t : Tree, t = .letIn "f" (.lam "x" (.lam "y" (.var "x")))
      (.letIn "x" (.app (.var "f") (.num 5)) (.app (.var "x") (.num 6))) := ⟨_, rfl⟩
  have hclosed : t.free = [] := by rw [ht]; decide
  have hrun : t.toProgram.runUnder 1 = .ok "5\n" := by rw [ht]; decide +kernel
  obtain ⟨m, htoSsa, htext, hexec⟩ := Target.generate_llvm_prints hclosed hrun
  exact ⟨t, m, ht, hclosed, hrun, htoSsa, htext, hexec⟩

end FlatClosure
