/-
Names that are not bound, in generated C.

A name that is not bound is written as it is. Source scopes are nested, but all
locals of a C function share one scope, so the name may be that of a local of
another scope.

* `Tree.outerLets`: the names that a tree binds outside its functions, which
  become locals of the entry.
* `Program.StaysUnbound`: no reference to a name that is not bound reads a
  variable of its function.
* `Tree.staysUnbound_toC_iff`: when this holds of the source file of a tree, and
  which of its free names are read from a local instead.
-/
import FlatClosure.Compile
import FlatClosure.Proofs.CCompilation
import FlatClosure.Proofs.CReferences

namespace FlatClosure

/-- Whether in every function of a source file, no reference to a name that is
not bound reads a parameter or a local. -/
def Program.StaysUnbound (p : Program) (unit : CUnit) : Prop :=
  ∀ item f, (item, f) ∈ p.zip unit → ∀ r ∈ item.references (p.decls.map Decl.name),
    ¬ r.IsBound → r.identifier ∉ f.variables

/-- In the body of a well-formed declaration, every name is bound. -/
lemma Decl.isBound_of_mem_references {d : Decl} {earlier : List Decl}
    (hwf : d.body.WellFormed (d.place earlier)) (globals : List Text) {r : Reference}
    (hr : r ∈ (Item.decl d).references globals) : r.IsBound := by
  by_contra hunbound
  obtain ⟨harg, hnot⟩ := d.body.unbound_of_mem_references hwf hr hunbound
  exact hnot harg

namespace Tree

/-! ### Names bound outside functions -/

/-- The names that a tree binds outside its functions. -/
def outerLets : Tree → List Text
  | num _ | var _ | lam _ _ => []
  | app func arg => func.outerLets ++ arg.outerLets
  | letIn name bind body => name :: (bind.outerLets ++ body.outerLets)

/-- Besides temporaries, what is left of a tree binds the names that the tree
binds outside its functions. -/
lemma mem_binders_convert {x : Text} (hx : ¬ looksMinted x) (t : Tree) (n : Nat) :
    x ∈ (t.convert n).expr.binders ↔ x ∈ t.outerLets := by
  induction t generalizing n with
  | num value => exact Iff.rfl
  | var name => exact Iff.rfl
  | lam param body ih =>
      rw [convert, Expr.binders, Expr.bindersAll_eq, List.flatMap_map]
      simp [Expr.binders, outerLets]
  | app func arg ihf iha =>
      have htemp : x ≠ mintTemp (func.convert n).next :=
        fun heq => hx (heq ▸ looksMinted_mintTemp _)
      simp only [convert, Expr.binders, outerLets, List.mem_cons, List.mem_append, ihf, iha,
        htemp, false_or]
  | letIn name bind body ihb ih =>
      simp only [convert, Expr.binders, outerLets, List.mem_cons, List.mem_append, ihb, ih]

/-! ### References of the program of a tree -/

section

variable {t : Tree} {entry : Expr}

lemma mem_toProgram_iff (hentry : t.toProgram.entry = .ok entry) {item : Item} :
    item ∈ t.toProgram ↔ (∃ d ∈ t.toProgram.decls, item = .decl d) ∨ item = .main entry := by
  obtain rfl := Except.ok.inj (t.entry_toProgram.symm.trans hentry)
  rw [decls_toProgram, toProgram, List.mem_append, List.mem_map, List.mem_singleton]
  simp only [eq_comm]

/-- Only the entry refers to names that are not bound, and these are the free
names of the tree. -/
lemma unbound_of_mem_toProgram (hentry : t.toProgram.entry = .ok entry) {item : Item}
    (hitem : item ∈ t.toProgram) {r : Reference}
    (hr : r ∈ item.references (t.toProgram.decls.map Decl.name)) (hunbound : ¬ r.IsBound) :
    item = .main entry ∧ r.name ∈ t.hygienic.free := by
  rcases (mem_toProgram_iff hentry).mp hitem with ⟨d, hd, rfl⟩ | rfl
  · obtain ⟨earlier, -, hwf⟩ := t.declsWellFormed_toProgram.exists_of_mem hd
    exact absurd (d.isBound_of_mem_references hwf _ hr) hunbound
  · exact ⟨rfl, (entry.unbound_of_mem_references (t.wellFormed_entry hentry) hr hunbound).1⟩

/-- Every free name of the tree is referred to by the entry without being
bound. -/
lemma exists_unbound_entry (hentry : t.toProgram.entry = .ok entry) (globals : List Text)
    {x : Text} (hx : x ∈ t.hygienic.free) :
    ∃ r ∈ (Item.main entry).references globals, ¬ r.IsBound ∧ r.name = x :=
  entry.exists_unbound (t.wellFormed_entry hentry) rfl (t.free_entry hentry ▸ hx)
    List.not_mem_nil _

variable {items : List CItem} {body : CBody}

/-- The entry comes last, in the program and in the source file. -/
lemma mem_zip_toC (hentry : t.toProgram.entry = .ok entry)
    (htoC : t.toProgram.toC = .ok (items ++ [.main body])) :
    (Item.main entry, CItem.main body) ∈ t.toProgram.zip (items ++ [.main body]) := by
  obtain rfl := Except.ok.inj (t.entry_toProgram.symm.trans hentry)
  obtain ⟨items', body', -, htoC', hitems, -⟩ := t.exists_toC t.entry_toProgram
  obtain ⟨rfl, -⟩ := List.append_inj' (Except.ok.inj (htoC.symm.trans htoC')) rfl
  have hlength : ((t.hygienic.convert 0).decls.map Item.decl).length = items.length := by
    rw [List.length_map, ← decls_toProgram, hitems.length_eq]
  rw [toProgram, List.zip_append hlength]
  exact List.mem_append_right _ (List.mem_singleton_self _)

/-- Only in the entry of a source file is a name read that is not bound; it is a
free name of the tree, and is read as it is written. -/
lemma unbound_of_mem_zip (htoC : t.toProgram.toC = .ok (items ++ [.main body])) {item : Item}
    {f : CItem} (hmem : (item, f) ∈ t.toProgram.zip (items ++ [.main body])) {r : Reference}
    (hr : r ∈ item.references (t.toProgram.decls.map Decl.name)) (hunbound : ¬ r.IsBound) :
    f = .main body ∧ r.name ∈ t.hygienic.free ∧ r.identifier = r.name := by
  obtain ⟨rfl, hfree⟩ :=
    unbound_of_mem_toProgram t.entry_toProgram (List.of_mem_zip hmem).1 hr hunbound
  have hf := Program.toC_of_mem_zip htoC hmem
  have hmain := Program.toC_of_mem_zip htoC (mem_zip_toC t.entry_toProgram htoC)
  exact ⟨Except.ok.inj (hf.symm.trans hmain), hfree, Reference.identifier_eq_name hunbound⟩

/-- The names that are not bound stay so if and only if none of them is a local
of the entry. -/
lemma staysUnbound_iff (htoC : t.toProgram.toC = .ok (items ++ [.main body])) :
    t.toProgram.StaysUnbound (items ++ [.main body]) ↔
      ∀ x ∈ t.hygienic.free, x ∉ body.locals := by
  constructor
  · intro hstays x hx
    have hmain := mem_zip_toC t.entry_toProgram htoC
    obtain ⟨r, hr, hunbound, rfl⟩ := exists_unbound_entry t.entry_toProgram _ hx
    rw [← Reference.identifier_eq_name hunbound]
    exact hstays _ _ hmain r hr hunbound
  · intro hfree item f hmem r hr hunbound
    obtain ⟨rfl, hname, heq⟩ := unbound_of_mem_zip htoC hmem hr hunbound
    rw [heq]
    exact hfree _ hname

end

section

variable {t : Tree} {entry : Expr} (hentry : t.toProgram.entry = .ok entry) {body : CBody}
  {l : Locals}
  (hbody : entry.toC [] [] (.empty (t.toProgram.decls.map Decl.name)) = .ok (body, l)) {x : Text}

include hentry hbody

/-- A name that is bound outside functions is a local of the entry, unless C
reserves it. -/
lemma mem_locals_entry_iff (hminted : ¬ looksMinted x) (hx : x ∈ t.hygienic.outerLets) :
    x ∈ body.locals ↔ x ∉ reservedWords := by
  obtain rfl := Except.ok.inj (t.entry_toProgram.symm.trans hentry)
  rw [Expr.locals_toC _ hbody]
  constructor
  · intro hmem
    exact (Locals.exists_of_mem_declareAll hmem).1
  · intro hreserved
    have hdisjoint : (t.toProgram.decls.map Decl.name).Disjoint [x] :=
      t.disjoint_names_toProgram (by simpa using hminted)
    have hglobals : x ∉ (Locals.empty (t.toProgram.decls.map Decl.name)).globals :=
      fun hmem => hdisjoint hmem (List.mem_singleton_self x)
    have hbinders := (mem_binders_convert hminted t.hygienic 0).mpr hx
    exact (Locals.mem_declareAll hbinders hreserved hglobals).resolve_right List.not_mem_nil

/-- A local of the entry is a name that is bound outside functions, or has a
suffix, or is minted. -/
lemma exists_of_mem_locals_entry (hminted : ¬ looksMinted x) (hx : x ∈ body.locals) :
    x ∈ t.hygienic.outerLets ∨
      ∃ name ∈ entry.binders, ∃ n, x = name ++ "_" ++ Text.ofNat n := by
  obtain rfl := Except.ok.inj (t.entry_toProgram.symm.trans hentry)
  rw [Expr.locals_toC _ hbody] at hx
  obtain ⟨-, name, hname, rfl | hsuffix⟩ := Locals.exists_of_mem_declareAll hx
  · exact Or.inl ((mem_binders_convert hminted _ 0).mp hname)
  · exact Or.inr ⟨name, hname, hsuffix⟩

end

/-- **Names that are not bound, in C.** The functions of a source file read one
identifier for each reference, in order. Only the entry refers to names that
are not bound; they are the free names of the tree, and each is read as it is
written. So they stay unbound if and only if none of them is a local of the
entry.

A free name that is also bound outside functions is always such a local, unless
C reserves it: what is read then is the variable of another scope. Any other
free name is one only if it is spelled like the suffixed form of a bound
name. -/
theorem staysUnbound_toC_iff (t : Tree) : ∃ entry items body,
    t.toProgram.entry = .ok entry ∧ t.toProgram.toC = .ok (items ++ [.main body]) ∧
    (∀ item f, (item, f) ∈ t.toProgram.zip (items ++ [.main body]) →
      f.reads =
        (item.references (t.toProgram.decls.map Decl.name)).map Reference.identifier ∧
      ∀ r ∈ item.references (t.toProgram.decls.map Decl.name), ¬ r.IsBound →
        f = .main body ∧ r.name ∈ t.hygienic.free ∧ r.identifier = r.name) ∧
    (t.toProgram.StaysUnbound (items ++ [.main body]) ↔
      ∀ x ∈ t.hygienic.free, x ∉ body.locals) ∧
    ∀ x ∈ t.hygienic.free,
      (x ∈ t.hygienic.outerLets → (x ∈ body.locals ↔ x ∉ reservedWords)) ∧
      (x ∈ body.locals → x ∈ t.hygienic.outerLets ∨
        ∃ name ∈ entry.binders, ∃ n, x = name ++ "_" ++ Text.ofNat n) := by
  obtain ⟨items, body, l, htoC, -, hbody⟩ := t.exists_toC t.entry_toProgram
  refine ⟨_, items, body, t.entry_toProgram, htoC, fun item f hmem => ⟨?_, fun r => ?_⟩,
    staysUnbound_iff htoC, fun x hx => ?_⟩
  · exact Item.reads_toC (Program.toC_of_mem_zip htoC hmem)
  · exact unbound_of_mem_zip htoC hmem
  · have hminted := not_looksMinted_of_mem_hygienic (t.hygienic.free_subset_names hx)
    exact ⟨mem_locals_entry_iff t.entry_toProgram hbody hminted,
      exists_of_mem_locals_entry t.entry_toProgram hbody hminted⟩

/-- A function is applied to a name that is bound only inside the callee.
Evaluation stops there, but the source file prints a value. -/
theorem not_staysUnbound_toC_callee : ∃ parsed unit,
    Text.parse "(let y = fun x => 7; y)(y)" = .ok parsed ∧ parsed.tree.free = ["y"] ∧
    parsed.tree.toProgram.toC = .ok unit ∧ ¬ parsed.tree.toProgram.StaysUnbound unit ∧
    parsed.tree.toProgram.runUnder 1 = .error (.error (.unbound "y")) ∧
    unit.execute 1 = some "7\n" := by
  have htree : (Text.parse "(let y = fun x => 7; y)(y)").map Parsed.tree =
      .ok (.app (.letIn "y" (.lam "x" (.num 7)) (.var "y")) (.var "y")) := by decide +kernel
  obtain ⟨parsed, hparse, htree⟩ := Except.exists_of_map_ok htree
  have htoC : parsed.tree.toProgram.toC = .ok ([.function "cls1" "env0" "x" ⟨[], .int 7⟩] ++
      [.main ⟨[.declare "_2", .declare "y", .assign "y" (.closure "cls1" []),
        .assign "_2" (.read "y")], .call "_2" (.read "y")⟩]) := by
    rw [← htree]
    rfl
  have hfree : parsed.tree.hygienic.free = ["y"] := by
    rw [← htree]
    decide +kernel
  refine ⟨parsed, _, hparse, by rw [← htree]; decide, htoC, fun hstays => ?_,
    by rw [← htree]; decide +kernel, by decide +kernel⟩
  exact (staysUnbound_iff htoC).mp hstays "y" (hfree ▸ List.mem_cons_self) (by decide)

end Tree

end FlatClosure
