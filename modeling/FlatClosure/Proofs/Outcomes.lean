/-
How compilation ends.

The check for free names that is made on the tree before LLVM is generated is
exactly what the generator needs: the two look at different representations,
but conversion keeps free names, so no fault of a generator is ever seen.

* `Target.exists_generate_c`: every tree is written out in C.
* `Target.exists_generate_llvm_iff`: a tree is written out in LLVM if and only
  if it is closed.
* `Outcome`: the ways in which a source is answered; a fault is none of them.
* `compile_outcome`: compilation answers every source in one of these ways.
-/
import FlatClosure.Compile
import FlatClosure.Proofs.CCompilation
import FlatClosure.Proofs.SsaCompilation

namespace FlatClosure

/-! ### Generators -/

namespace Target

lemma generateNamed_name (target : Target) (p : Program) :
    generateNamed target.name p = target.generate p := by
  have hname : ofName? target.name = some target := by cases target <;> decide
  rw [generateNamed, hname]

/-- Every tree is written out in C, whether or not it is closed. -/
lemma exists_generate_c (t : Tree) : ∃ text, Target.c.generate t.toProgram = .ok text := by
  obtain ⟨items, body, l, htoC, -, -⟩ := t.exists_toC t.entry_toProgram
  exact ⟨CUnit.render (items ++ [.main body]), by rw [generate, htoC]; rfl⟩

/-- A tree is written out in LLVM if and only if it is closed. -/
lemma exists_generate_llvm_iff (t : Tree) :
    (∃ text, Target.llvm.generate t.toProgram = .ok text) ↔ t.free = [] := by
  constructor
  · rintro ⟨text, htext⟩
    obtain ⟨m, hm, -⟩ := Except.exists_of_map_ok htext
    exact Tree.free_eq_nil_of_toSsa hm
  · intro hclosed
    obtain ⟨blocks, code, htoSsa, -, -⟩ := Tree.exists_toSsa hclosed t.entry_toProgram
    exact ⟨SsaModule.render _, by rw [generate, htoSsa]; rfl⟩

/-- The generator of LLVM has a fault exactly where a name is free. -/
lemma exists_fault_llvm_iff (t : Tree) :
    (∃ fault, Target.llvm.generate t.toProgram = .error fault) ↔ t.free ≠ [] := by
  rw [ne_eq, ← exists_generate_llvm_iff]
  cases Target.llvm.generate t.toProgram with
  | error fault => simp
  | ok text => simp

end Target

/-! ### Sources -/

/-- The ways in which a source is answered in a target. Only LLVM asks for a
closed tree, and the name that is reported is the first free one. -/
inductive Outcome (source : Source) (target : Target) : Except CompileError Compiled → Prop
  | lex {e : LexError} (hscan : Token.scan source.text = .error e) :
      Outcome source target (.error (.failure (.lex e)))
  | parse {tokens : List Token} {e : ParseError} (hscan : Token.scan source.text = .ok tokens)
      (hparse : Tree.ofTokens tokens = .error e) :
      Outcome source target (.error (.failure (.parse e)))
  | unbound {tokens : List Token} {tree : Tree} {name : Text} {rest : Names}
      (hscan : Token.scan source.text = .ok tokens) (hparse : Tree.ofTokens tokens = .ok tree)
      (htarget : target = .llvm) (hfree : tree.free = name :: rest) :
      Outcome source target (.error (.failure (.unbound name source.path)))
  | compiled {tokens : List Token} {tree : Tree} {output : Text}
      (hscan : Token.scan source.text = .ok tokens) (hparse : Tree.ofTokens tokens = .ok tree)
      (hclosed : target = .llvm → tree.free = [])
      (hgenerate : target.generate tree.toProgram = .ok output) :
      Outcome source target (.ok ⟨tokens, tree.toProgram, output⟩)

section

variable {source : Source} {target : Target}

/-- After the check for free names, the generator has no fault. -/
lemma Target.exists_generate {t : Tree} (hclosed : target = .llvm → t.free = []) :
    ∃ output, target.generate t.toProgram = .ok output := by
  cases target with
  | c => exact exists_generate_c t
  | llvm => exact (exists_generate_llvm_iff t).mpr (hclosed rfl)

lemma Text.parse_eq_ok {text : Text} {tokens : List Token} {tree : Tree}
    (hscan : Token.scan text = .ok tokens) (hparse : Tree.ofTokens tokens = .ok tree) :
    text.parse = .ok ⟨tokens, tree⟩ := by
  rw [Text.parse, hscan]
  dsimp only
  rw [hparse]

/-- A source that is parsed is compiled, or its first free name is reported. -/
lemma outcome_compile_of_parsed {tokens : List Token} {tree : Tree}
    (hscan : Token.scan source.text = .ok tokens) (hparse : Tree.ofTokens tokens = .ok tree) :
    Outcome source target (compile source target.name) := by
  have hchecked : target.name = Target.llvm.name ↔ target = .llvm := by
    cases target <;> decide
  rw [compile, Text.parse_eq_ok hscan hparse]
  dsimp only
  cases hfree : (if target.name = Target.llvm.name then tree.free else []) with
  | cons name rest =>
      by_cases htarget : target = .llvm
      · rw [if_pos (hchecked.mpr htarget)] at hfree
        exact .unbound hscan hparse htarget hfree
      · rw [if_neg (hchecked.not.mpr htarget)] at hfree
        exact absurd hfree (by simp)
  | nil =>
      have hclosed : target = .llvm → tree.free = [] := by
        intro htarget
        rwa [if_pos (hchecked.mpr htarget)] at hfree
      obtain ⟨output, hgenerate⟩ := Target.exists_generate hclosed
      dsimp only
      rw [Target.generateNamed_name, hgenerate]
      exact .compiled hscan hparse hclosed hgenerate

lemma outcome_compile (source : Source) (target : Target) :
    Outcome source target (compile source target.name) := by
  cases hscan : Token.scan source.text with
  | error e =>
      have hcompile : compile source target.name = .error (.failure (.lex e)) := by
        rw [compile, Text.parse, hscan]
      exact hcompile ▸ .lex hscan
  | ok tokens =>
      cases hparse : Tree.ofTokens tokens with
      | error e =>
          have hcompile : compile source target.name = .error (.failure (.parse e)) := by
            rw [compile, Text.parse, hscan]
            dsimp only
            rw [hparse]
          exact hcompile ▸ .parse hscan hparse
      | ok tree => exact outcome_compile_of_parsed hscan hparse

end

/-- **How compilation ends.** The generator of LLVM has a fault on the program of
a tree if and only if a name is free in the tree, and the generator of C has
none. So every source is answered in one of the ways of `Outcome`: with a
failure to scan or to parse, with a result, or, in LLVM only and exactly where
the parsed tree has a free name, with the first of its free names. No fault is
ever seen. -/
theorem compile_outcome :
    (∀ t : Tree, (∃ fault, Target.llvm.generate t.toProgram = .error fault) ↔ t.free ≠ []) ∧
    (∀ t : Tree, ∃ text, Target.c.generate t.toProgram = .ok text) ∧
    ∀ (source : Source) (target : Target),
      Outcome source target (compile source target.name) ∧
      (∀ fault, compile source target.name ≠ .error (.fault fault)) ∧
      ∀ name path, compile source target.name = .error (.failure (.unbound name path)) ↔
        target = .llvm ∧ path = source.path ∧ ∃ parsed rest,
          source.text.parse = .ok parsed ∧ parsed.tree.free = name :: rest := by
  refine ⟨Target.exists_fault_llvm_iff, Target.exists_generate_c, fun source target => ?_⟩
  have houtcome := outcome_compile source target
  refine ⟨houtcome, fun fault hfault => ?_, fun name path => ⟨fun hunbound => ?_, ?_⟩⟩
  · rw [hfault] at houtcome
    cases houtcome
  · rw [hunbound] at houtcome
    cases houtcome with
    | unbound hscan hparse htarget hfree =>
        exact ⟨htarget, rfl, _, _, Text.parse_eq_ok hscan hparse, hfree⟩
  · rintro ⟨rfl, rfl, parsed, rest, hparse, hfree⟩
    rw [compile, hparse]
    dsimp only
    rw [if_pos rfl, hfree]

end FlatClosure
