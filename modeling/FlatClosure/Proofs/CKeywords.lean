/-
Keywords among the variables of generated C.

The support code needs the standard of 2011, which added keywords that are words of
the source language; the identifiers that are never declared do not include them.

* `Text.endsPlain`: whether a name ends in neither a digit nor an underscore. Such a
  name is never the outcome of a renaming.
* `Item.mem_variables_iff`: the variables of a function with such a name are those
  that its item binds, without the reserved ones.
* `Tree.exists_binders_iff`: the items of a tree bind the names that the tree binds.
* `Tree.toC_declares_keyword_iff`: which keywords the source file of a tree declares.
-/
import FlatClosure.Compile
import FlatClosure.Proofs.CCompilation
import FlatClosure.Proofs.CLocals
import FlatClosure.Proofs.DrawnNumbers
import FlatClosure.Proofs.HygienicRenaming
import FlatClosure.Proofs.UnboundNames

namespace FlatClosure

/-- The keywords that C got in 2011. -/
def addedKeywords : List Text := List.map Text.ofString [
  "_Alignas", "_Alignof", "_Atomic", "_Generic", "_Noreturn", "_Static_assert",
  "_Thread_local"]

/-- The keywords of C since 2011. -/
def c11Keywords : List Text := cKeywords ++ addedKeywords

/-! ### Names that no renaming yields -/

namespace Text

/-- Whether a name ends in neither a digit nor an underscore. -/
def endsPlain (x : Text) : Bool := x.getLast?.all fun b => !isDigit b && b != 95

variable {x : Text}

lemma not_looksMinted_of_endsPlain (hx : x.endsPlain) : ¬ looksMinted x := by
  intro hminted
  obtain ⟨b, hlast, hdigit⟩ := isDigit_getLast_of_looksMinted hminted
  simp [endsPlain, hlast, hdigit] at hx

/-- A suffix ends in a digit. -/
lemma ne_append_ofNat_of_endsPlain (hx : x.endsPlain) (t : Text) (n : Nat) : x ≠ t ++ ofNat n := by
  rintro rfl
  have hlast := List.getLast?_eq_some_getLast (ofNat_ne_nil n)
  have hdigit := isDigit_of_mem_ofNat (List.getLast_mem (ofNat_ne_nil n))
  rw [endsPlain, List.getLast?_append, hlast] at hx
  simp [hdigit] at hx

/-- Hygiene appends underscores. -/
lemma eq_of_endsPlain_underscored {k : Nat} (hx : (underscored x k).endsPlain) :
    underscored x k = x := by
  cases k with
  | zero => exact List.append_nil x
  | succ k =>
      rw [endsPlain, underscored, List.getLast?_append, List.getLast?_replicate] at hx
      simp at hx

end Text

/-! ### Names that a tree binds -/

namespace Tree

/-- The parameters of a tree and the names that it binds in other ways. -/
def boundNames : Tree → List Text
  | num _ | var _ => []
  | lam param body => param :: body.boundNames
  | app func arg => func.boundNames ++ arg.boundNames
  | letIn name bind body => name :: (bind.boundNames ++ body.boundNames)

lemma boundNames_rename (r : Text → Text) (t : Tree) :
    (t.rename r).boundNames = t.boundNames.map r := by
  induction t with
  | num value => rfl
  | var name => rfl
  | lam param body ih => simp [rename, boundNames, ih]
  | app func arg ihf iha => simp [rename, boundNames, ihf, iha]
  | letIn name bind body ihb ih => simp [rename, boundNames, ihb, ih]

lemma boundNames_subset_names (t : Tree) : t.boundNames ⊆ t.names := by
  induction t with
  | num value => exact List.nil_subset _
  | var name => exact List.nil_subset _
  | lam param body ih => exact List.cons_subset_cons _ ih
  | app func arg ihf iha =>
      exact List.append_subset.mpr ⟨List.subset_append_of_subset_left _ ihf,
        List.subset_append_of_subset_right _ iha⟩
  | letIn name bind body ihb ih =>
      exact List.cons_subset_cons _ (List.append_subset.mpr
        ⟨List.subset_append_of_subset_left _ ihb, List.subset_append_of_subset_right _ ih⟩)

lemma mem_boundNames_iff {x : Text} {t : Tree} :
    x ∈ t.boundNames ↔ x ∈ t.functions.map Prod.fst ∨ x ∈ t.letNames := by
  induction t with
  | num value => simp [boundNames, functions, letNames]
  | var name => simp [boundNames, functions, letNames]
  | lam param body ih => simp only [boundNames, functions, letNames]; grind
  | app func arg ihf iha => simp only [boundNames, functions, letNames]; grind
  | letIn name bind body ihb ih => simp only [boundNames, functions, letNames]; grind

/-- Hygiene keeps which names without a digit or an underscore at the end are
bound. -/
lemma mem_boundNames_hygienic_iff {x : Text} {t : Tree} (hx : x.endsPlain) :
    x ∈ t.hygienic.boundNames ↔ x ∈ t.boundNames := by
  rw [hygienic_eq, boundNames_rename, List.mem_map]
  constructor
  · rintro ⟨y, hy, rfl⟩
    obtain ⟨k, heq⟩ := exists_newName_eq (t.boundNames_subset_names hy)
    rw [heq] at hx ⊢
    rwa [Text.eq_of_endsPlain_underscored hx]
  · intro hmem
    exact ⟨x, hmem, newName_eq_self (Text.not_looksMinted_of_endsPlain hx)⟩

/-- The parameters of the declarations are those of the functions. -/
lemma map_arg_convert (t : Tree) (n : Nat) :
    (t.convert n).decls.map Decl.arg = t.functions.map Prod.fst := by
  have hfunctions := t.forall₂_functions (P := fun _ => True) (fun _ _ => trivial) n
  rw [eq_comm, ← List.forall₂_eq_eq_eq, List.forall₂_map_left_iff, List.forall₂_map_right_iff]
  refine hfunctions.imp ?_
  rintro ⟨param, body⟩ d ⟨-, k, rfl⟩
  rfl

/-- Besides minted names, the items of a tree bind the names that the tree
binds. -/
lemma exists_binders_iff {x : Text} (hx : ¬ looksMinted x) (t : Tree) :
    (∃ item ∈ t.toProgram, x ∈ item.binders) ↔ x ∈ t.hygienic.boundNames := by
  have henv : ∀ d ∈ t.toProgram.decls, x ≠ d.env := by
    intro d hd heq
    rw [decls_toProgram] at hd
    obtain ⟨k, -, henv, -⟩ :=
      names_of_mem_decls_convert (fun y hy => not_looksMinted_of_mem_hygienic hy) hd
    exact hx (heq ▸ henv ▸ looksMinted_mintEnv k)
  have hlets : x ∈ (t.hygienic.convert 0).binders ↔ x ∈ t.hygienic.letNames := by
    rw [← List.count_pos_iff, count_binders_convert hx, List.count_pos_iff]
  rw [mem_boundNames_iff, ← map_arg_convert _ 0, ← hlets, Converted.binders, ← decls_toProgram]
  constructor
  · rintro ⟨item, hitem, hbinders⟩
    rcases (mem_toProgram_iff t.entry_toProgram).mp hitem with ⟨d, hd, rfl⟩ | rfl
    · rcases List.mem_cons.mp hbinders with heq | hbinders
      · exact absurd heq (henv d hd)
      · rcases List.mem_cons.mp hbinders with rfl | hbinders
        · exact Or.inl (List.mem_map_of_mem hd)
        · exact Or.inr (List.mem_append_left _ (List.mem_flatMap.mpr ⟨d, hd, hbinders⟩))
    · exact Or.inr (List.mem_append_right _ hbinders)
  · have hdecl : ∀ d ∈ t.toProgram.decls, .decl d ∈ t.toProgram := fun d hd =>
      (mem_toProgram_iff t.entry_toProgram).mpr (Or.inl ⟨d, hd, rfl⟩)
    rintro (harg | hbinders)
    · obtain ⟨d, hd, rfl⟩ := List.mem_map.mp harg
      exact ⟨_, hdecl d hd, List.mem_cons_of_mem _ List.mem_cons_self⟩
    · rcases List.mem_append.mp hbinders with hbinders | hbinders
      · obtain ⟨d, hd, hbinders⟩ := List.mem_flatMap.mp hbinders
        exact ⟨_, hdecl d hd, List.mem_cons_of_mem _ (List.mem_cons_of_mem _ hbinders)⟩
      · exact ⟨_, (mem_toProgram_iff t.entry_toProgram).mpr (Or.inr rfl), hbinders⟩

end Tree

/-! ### Declared keywords -/

/-- A name without a digit or an underscore at the end is a variable of the function
of an item if the item binds it, unless C or a function has it. -/
lemma Item.mem_variables_iff {item : Item} {globals : List Text} {f : CItem}
    (h : item.toC globals = .ok f) {x : Text} (hx : x.endsPlain) (hglobals : x ∉ globals) :
    x ∈ f.variables ↔ x ∈ item.binders ∧ x ∉ reservedWords := by
  rw [(laidOut_toC h).variables_eq]
  constructor
  · intro hmem
    obtain ⟨hreserved, name, hname, rfl | ⟨n, hsuffix⟩⟩ := Locals.exists_of_mem_declareAll hmem
    · exact ⟨hname, hreserved⟩
    · exact absurd hsuffix (Text.ne_append_ofNat_of_endsPlain hx _ n)
  · rintro ⟨hbinders, hreserved⟩
    exact (Locals.mem_declareAll hbinders hreserved hglobals).resolve_right List.not_mem_nil

namespace Tree

/-- The names without a digit or an underscore at the end that the source file of a
tree declares: those that the tree binds, without the reserved ones. -/
lemma exists_variables_iff {t : Tree} {unit : CUnit} (htoC : t.toProgram.toC = .ok unit) {x : Text}
    (hx : x.endsPlain) :
    (∃ f ∈ unit, x ∈ f.variables) ↔ x ∈ t.boundNames ∧ x ∉ reservedWords := by
  have hminted := Text.not_looksMinted_of_endsPlain hx
  have hdisjoint : (t.toProgram.decls.map Decl.name).Disjoint [x] :=
    t.disjoint_names_toProgram (by simpa using hminted)
  have hglobals : x ∉ t.toProgram.decls.map Decl.name := fun hmem =>
    hdisjoint hmem (List.mem_singleton_self x)
  have hitems := (Program.forall₂_toC htoC).imp fun item f hf =>
    Item.mem_variables_iff hf hx hglobals
  rw [← mem_boundNames_hygienic_iff hx, ← exists_binders_iff hminted]
  constructor
  · rintro ⟨f, hf, hvariable⟩
    obtain ⟨item, hitem, hiff⟩ := exists_of_mem_right hitems hf
    exact ⟨⟨item, hitem, (hiff.mp hvariable).1⟩, (hiff.mp hvariable).2⟩
  · rintro ⟨⟨item, hitem, hbinders⟩, hreserved⟩
    obtain ⟨f, hf, hiff⟩ := exists_of_mem_right hitems.flip hitem
    exact ⟨f, hf, hiff.mpr ⟨hbinders, hreserved⟩⟩

/-- **Keywords among the variables of generated C.** A source file declares a
keyword of C as a parameter or local if and only if it is one of those that were
added in 2011 and the tree binds it. So no keyword is declared if and only if the
tree binds none of these. -/
theorem toC_declares_keyword_iff (t : Tree) : ∃ unit, t.toProgram.toC = .ok unit ∧
    (∀ x ∈ c11Keywords,
      (∃ f ∈ unit, x ∈ f.variables) ↔ x ∈ addedKeywords ∧ x ∈ t.boundNames) ∧
    ((∀ f ∈ unit, ∀ x ∈ f.variables, x ∉ c11Keywords) ↔
      ∀ x ∈ addedKeywords, x ∉ t.boundNames) := by
  obtain ⟨items, body, -, htoC, -⟩ := t.exists_toC t.entry_toProgram
  have hplain : ∀ x ∈ c11Keywords, x.endsPlain := by decide
  have hreserved : ∀ x ∈ c11Keywords, x ∉ reservedWords ↔ x ∈ addedKeywords := by decide
  have hiff : ∀ x ∈ c11Keywords, (∃ f ∈ items ++ [.main body], x ∈ f.variables) ↔
      x ∈ addedKeywords ∧ x ∈ t.boundNames := by
    intro x hx
    rw [exists_variables_iff htoC (hplain x hx), hreserved x hx, and_comm]
  refine ⟨_, htoC, hiff, ?_, ?_⟩
  · intro hnone x hadded hbound
    have hx : x ∈ c11Keywords := List.mem_append_right _ hadded
    obtain ⟨f, hf, hvariable⟩ := (hiff x hx).mpr ⟨hadded, hbound⟩
    exact hnone f hf x hvariable hx
  · intro hnone f hf x hvariable hx
    obtain ⟨hadded, hbound⟩ := (hiff x hx).mp ⟨f, hf, hvariable⟩
    exact hnone x hadded hbound

/-- A parameter that is a keyword since 2011. -/
theorem toC_declares_keyword_atomic : ∃ parsed unit,
    Text.parse "fun _Atomic => _Atomic" = .ok parsed ∧ parsed.tree.toProgram.toC = .ok unit ∧
    ∃ f ∈ unit, ∃ x ∈ f.variables, x ∈ c11Keywords := by
  have htree : (Text.parse "fun _Atomic => _Atomic").map Parsed.tree =
      .ok (.lam "_Atomic" (.var "_Atomic")) := by decide +kernel
  obtain ⟨parsed, hparse, htree⟩ := Except.exists_of_map_ok htree
  have htoC : parsed.tree.toProgram.toC =
      .ok ([.function "cls1" "env0" "_Atomic" ⟨[], .read "_Atomic"⟩] ++
        [.main ⟨[], .closure "cls1" []⟩]) := by
    rw [← htree]
    rfl
  exact ⟨parsed, _, hparse, htoC, _, List.mem_cons_self, "_Atomic", by decide, by decide⟩

end Tree

end FlatClosure
