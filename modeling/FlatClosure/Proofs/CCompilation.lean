/-
Compilation to C prints what evaluation prints.

* `exists_function?`, `main?_append`: the functions and the entry of a file are
  found, each with the functions that can be used in it.
* `Tree.exists_toC`: a closed tree has a source file.
* `Tree.execute_toC`: it prints what the program of the tree prints.
-/
import FlatClosure.Proofs.CNames
import FlatClosure.Proofs.CSimulation

namespace FlatClosure

/-! ### The functions of a source file -/

section

variable {globals : List Text} {earlier decls : List Decl} {items : List CItem}

/-- Every declaration is implemented by the function of its name, if the names
are distinct. -/
lemma exists_function? (hwf : DeclsWellFormed earlier decls)
    (hitems : List.Forall₂ (IsFunctionOf globals) decls items)
    (hnodup : (decls.map Decl.name).Nodup)
    (hglobals : (earlier ++ decls).map Decl.name ⊆ globals) (rest : CUnit) :
    ∀ d ∈ decls, ∃ f, CUnit.function? (earlier.map Decl.name) (items ++ rest) d.name = some f ∧
      d.ImplementedBy globals f := by
  induction hitems generalizing earlier with
  | nil => exact fun d hd => absurd hd List.not_mem_nil
  | @cons d item decls items hitem hitems ih =>
      obtain ⟨body, l, htoC, rfl⟩ := hitem
      obtain ⟨hnotMem, hnodup⟩ := List.nodup_cons.mp hnodup
      have hsplit : earlier ++ d :: decls = (earlier ++ [d]) ++ decls := by simp
      rw [hsplit] at hglobals
      intro d' hd'
      rcases List.mem_cons.mp hd' with rfl | hd'
      · refine ⟨⟨earlier.map Decl.name ++ [d'.name], d'.cEnv globals, d'.cArg globals, body⟩,
          by rw [List.cons_append, CUnit.function?, if_pos rfl],
          rfl, rfl, ⟨l, htoC⟩, ⟨earlier, hwf.1, fun e he => ?_⟩, fun x hx => ?_⟩
        · exact List.mem_append_left _ (List.mem_map_of_mem he)
        · rw [List.map_append] at hglobals
          exact hglobals (List.mem_append_left _ (by rwa [List.map_append]))
      · have hne : d.name ≠ d'.name := fun heq => hnotMem (heq ▸ List.mem_map_of_mem hd')
        obtain ⟨f, hfunction, hf⟩ := ih hwf.2 hnodup hglobals d' hd'
        refine ⟨f, ?_, hf⟩
        rw [List.cons_append, CUnit.function?, if_neg hne, ← hfunction, List.map_append]
        rfl

/-- The entry comes after all functions. -/
lemma main?_append (hitems : List.Forall₂ (IsFunctionOf globals) decls items)
    (before : List Text) (body : CBody) :
    CUnit.main? before (items ++ [.main body]) = some (before ++ decls.map Decl.name, body) := by
  induction hitems generalizing before with
  | nil => rw [List.nil_append, CUnit.main?, List.map_nil, List.append_nil]
  | cons hitem _ ih =>
      obtain ⟨_, _, -, rfl⟩ := hitem
      rw [List.cons_append, CUnit.main?, ih, List.map_cons, List.append_assoc]
      rfl

/-- A file defines its declarations and the entry. -/
lemma defined_append (hitems : List.Forall₂ (IsFunctionOf globals) decls items) (body : CBody) :
    CUnit.defined (items ++ [.main body]) = decls.map Decl.name ++ [("main" : Text)] := by
  induction hitems with
  | nil => rfl
  | cons hitem _ ih =>
      obtain ⟨_, _, -, rfl⟩ := hitem
      rw [List.map_cons, List.cons_append, List.cons_append, ← ih]
      rfl

end

namespace Tree

variable {t : Tree}

/-- No function of a file is defined twice: minted names are distinct, and the
support code has none. -/
lemma links_toProgram {items : List CItem} {globals : List Text}
    (hitems : List.Forall₂ (IsFunctionOf globals) t.toProgram.decls items) (body : CBody) :
    CUnit.links (items ++ [.main body]) = true := by
  rw [CUnit.links, defined_append hitems, List.append_assoc, decide_eq_true_iff,
    List.nodup_append']
  exact ⟨t.nodup_names_toProgram, by decide, t.disjoint_names_toProgram (by decide)⟩

/-- The source file of a tree: a function for each declaration, and the
entry. -/
lemma exists_toC (t : Tree) {e : Expr} (he : t.toProgram.entry = .ok e) :
    ∃ items body l, t.toProgram.toC = .ok (items ++ [.main body]) ∧
      List.Forall₂ (IsFunctionOf (t.toProgram.decls.map Decl.name)) t.toProgram.decls items ∧
      e.toC [] [] (.empty (t.toProgram.decls.map Decl.name)) = .ok (body, l) := by
  obtain rfl := Except.ok.inj (t.entry_toProgram.symm.trans he)
  obtain ⟨items, hmapM, hitems⟩ :=
    exists_mapM_toC (t.toProgram.decls.map Decl.name) t.declsWellFormed_toProgram
  obtain ⟨body, l, hbody⟩ := (t.hygienic.convert 0).expr.exists_toC
    (t.hygienic.wellFormed_expr_convert 0) (fun q hq => absurd hq List.not_mem_nil) []
    (.empty (t.toProgram.decls.map Decl.name))
  refine ⟨items, body, l, ?_, hitems, hbody⟩
  have hitemsOf : t.toProgram =
      t.toProgram.decls.map .decl ++ [.main (t.hygienic.convert 0).expr] := by
    rw [decls_toProgram]
    rfl
  have hmain : (Item.main (t.hygienic.convert 0).expr).toC (t.toProgram.decls.map Decl.name) =
      .ok (.main body) := by
    rw [Item.toC, hbody]
    rfl
  rw [Program.toC, he, Except.ok_bind]
  nth_rewrite 2 [hitemsOf]
  rw [List.mapM_append, hmapM, Except.ok_bind, List.mapM_cons, hmain]
  rfl

/-- **A source file prints what its program prints**: where a closed tree has a
value, the file runs with any stack that is deep enough for the evaluation. -/
theorem execute_toC (hclosed : t.free = []) {unit : CUnit} (hunit : t.toProgram.toC = .ok unit)
    {limit : Int} {out : Text} (hrun : t.toProgram.runUnder limit = .ok out) {fuel : Nat}
    (hfuel : limit.toNat ≤ fuel) : unit.execute fuel = some out := by
  obtain ⟨e, v, hentry, rfl, heval⟩ := Program.exists_of_runUnder hrun
  obtain ⟨items, body, l, htoC, hitems, hbody⟩ := t.exists_toC hentry
  obtain rfl := Except.ok.inj (hunit.symm.trans htoC)
  have hwf := wellFormed_entry_toProgram hclosed hentry
  have hlinks := links_toProgram hitems body
  have hfunctions := exists_function? t.declsWellFormed_toProgram hitems t.nodup_names_toProgram
    (List.Subset.refl _) [.main body]
  have hmain := main?_append hitems [] body
  rw [List.nil_append] at hmain
  generalize t.toProgram.decls = decls at *
  have hfits : CState.Fits ⟨[], .empty⟩ (.empty (decls.map Decl.name)) (decls.map Decl.name) :=
    ⟨Locals.apart_empty _, List.Subset.refl _, fun x hx => absurd hx (by simp [CLocals.hides])⟩
  have hframe : FrameStored decls [] [] (.empty (decls.map Decl.name)) .empty ⟨[], .empty⟩ :=
    ⟨fun x v hv => absurd hv (by simp [LocalFrame.empty]),
      fun x values hv => absurd hv (by simp [LocalFrame.empty])⟩
  obtain ⟨a, s, hexec, -, hfits', hstored⟩ := exists_run (callsMatch_call hfunctions limit hfuel)
    hwf (fun d hd => List.mem_map_of_mem hd) hbody hfits hframe heval
  have hprint : s.locals.hides "print_val" = false := by
    rw [Bool.eq_false_iff]
    exact fun hx => (hfits'.clear _ hx).1 (by decide)
  simp only [CUnit.execute, if_pos hlinks, hmain, Option.bind_eq_bind, Option.bind_some, hexec,
    hprint, Bool.false_eq_true, if_false]
  exact hstored.printed_eq

/-- The source file of a closed tree whose names are words uses only names of
C. -/
lemma isCName_of_mem_toC (hclosed : t.free = []) (ht : ∀ x ∈ t.names, x.isWord) {unit : CUnit}
    (hunit : t.toProgram.toC = .ok unit) {x : Text} (hx : x ∈ unit.identifiers) : isCName x := by
  obtain ⟨items, body, l, htoC, hitems, hbody⟩ := t.exists_toC t.entry_toProgram
  obtain rfl := Except.ok.inj (hunit.symm.trans htoC)
  have hnames : ∀ d ∈ t.toProgram.decls, isCName d.name := by
    intro d hd
    rw [decls_toProgram] at hd
    obtain ⟨k, -, -, hk⟩ := exists_name_of_mem_decls hd
    rw [hk]
    exact isCName_mintCode k
  have hwords := fun x (hx : x ∈ t.hygienic.names) => isWord_of_mem_hygienic ht hx
  rw [CUnit.identifiers, List.flatMap_append, List.mem_append] at hx
  rcases hx with hx | hx
  · obtain ⟨item, hitem, hx⟩ := List.mem_flatMap.mp hx
    obtain ⟨d, hd, hfunction⟩ := exists_of_mem_right hitems hitem
    obtain ⟨earlier, hearlier, hwf⟩ := t.declsWellFormed_toProgram.exists_of_mem hd
    have hbound := isWord_of_mem_decls_convert hwords 0 (decls_toProgram t ▸ hd)
    exact hfunction.isCName hwf hbound (hnames d hd) (fun d' hd' => hnames d' (hearlier hd')) hx
  · rw [List.flatMap_singleton] at hx
    have hwf := wellFormed_entry_toProgram hclosed t.entry_toProgram
    refine Expr.isCName_of_mem_toC _ hwf ⟨?_, ?_⟩
      (fun y hy => isWord_of_mem_binders_convert hwords 0 hy) (Locals.apart_empty _) ?_ hnames
      hbody hx
    · exact fun y hy => absurd hy List.not_mem_nil
    · exact fun y id hid => absurd hid (by simp)
    · exact fun y hy => absurd hy List.not_mem_nil

end Tree

/-- **The generated C prints what evaluation prints.** If a source is parsed to a
closed tree whose program prints a text under some limit of nested
applications, then the text that is generated for it can be read as a source
file, and this file prints the same, however many calls beyond the limit may be
nested. -/
theorem Target.generate_c_prints {source : Text} {parsed : Parsed}
    (hparse : source.parse = .ok parsed) (hclosed : parsed.tree.free = []) {limit : Int}
    {out : Text} (hrun : parsed.tree.toProgram.runUnder limit = .ok out) :
    ∃ text unit, Target.c.generate parsed.tree.toProgram = .ok text ∧
      CUnit.ofText? text = some unit ∧
      ∀ fuel, limit.toNat ≤ fuel → unit.execute fuel = some out := by
  obtain ⟨items, body, l, htoC, -, -⟩ := parsed.tree.exists_toC parsed.tree.entry_toProgram
  have hnames := fun x (hx : x ∈ CUnit.identifiers (items ++ [.main body])) =>
    Tree.isCName_of_mem_toC hclosed (fun y hy => Text.isWord_of_mem_parse hparse hy) htoC hx
  refine ⟨CUnit.render (items ++ [.main body]), items ++ [.main body], ?_,
    CUnit.ofText?_render hnames, fun fuel hfuel => Tree.execute_toC hclosed htoC hrun hfuel⟩
  rw [Target.generate, htoC]
  rfl

/-- A function that captures a value, bound to a name that has to be replaced
in C. -/
theorem Target.generate_c_prints_captured : ∃ parsed text unit,
    Text.parse "let build_int = fun x => fun y => x; build_int(5)(6)" = .ok parsed ∧
    parsed.tree.free = [] ∧ parsed.tree.toProgram.runUnder 1 = .ok "5\n" ∧
    Target.c.generate parsed.tree.toProgram = .ok text ∧ CUnit.ofText? text = some unit ∧
    ∀ fuel, 1 ≤ fuel → unit.execute fuel = some "5\n" := by
  have htree : (Text.parse "let build_int = fun x => fun y => x; build_int(5)(6)").map
      Parsed.tree = .ok (.letIn "build_int" (.lam "x" (.lam "y" (.var "x")))
        (.app (.app (.var "build_int") (.num 5)) (.num 6))) := by decide +kernel
  obtain ⟨parsed, hparse, htree⟩ := Except.exists_of_map_ok htree
  have hclosed : parsed.tree.free = [] := by rw [← htree]; decide
  have hrun : parsed.tree.toProgram.runUnder 1 = .ok "5\n" := by rw [← htree]; decide +kernel
  obtain ⟨text, unit, htext, hunit, hexec⟩ := Target.generate_c_prints hparse hclosed hrun
  exact ⟨parsed, text, unit, hparse, hclosed, hrun, htext, hunit, hexec⟩

end FlatClosure
