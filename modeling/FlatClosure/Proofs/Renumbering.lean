/-
Conversion from one number on and from another.

The number that conversion starts at is seen in the minted names only, and they move
with it: a tree without minted names is converted from a larger number on to the same
program with the numbers of all minted names increased.

* `renumberName`: a minted name with its number increased; other names stay.
* `Expr.renumber`, `Decl.renumber`, `Converted.renumber`: the same at every place where
  conversion puts a minted name.
* `Expr.renumber_substitute`: substitution for names that are not minted, before and
  after.
* `Tree.convert_add`: the conversion of a tree from a larger number on.
-/
import FlatClosure.Proofs.Conversion

namespace FlatClosure

/-! ### Names -/

/-- A minted name with its number, which the digits of the name spell, increased. -/
def renumberName (k : Nat) (name : Text) : Text :=
  if looksMinted name then
    name.filter (!Text.isDigit ·) ++ Text.ofNat (Text.decimalValue (name.filter Text.isDigit) + k)
  else name

lemma renumberName_of_not_looksMinted {name : Text} (h : ¬ looksMinted name) (k : Nat) :
    renumberName k name = name := if_neg h

lemma isDigit_eq_false_of_mem_stem {stem : Text} (hstem : stem ∈ mintedStems) {b : UInt8}
    (hb : b ∈ stem) : Text.isDigit b = false := by
  have hall : mintedStems.all (·.all (!Text.isDigit ·)) := by decide
  simpa using List.all_eq_true.mp (List.all_eq_true.mp hall stem hstem) b hb

lemma renumberName_append {stem digits : Text} (hstem : stem ∈ mintedStems) (hne : digits ≠ [])
    (hdigits : ∀ b ∈ digits, Text.isDigit b) (k : Nat) :
    renumberName k (stem ++ digits) = stem ++ Text.ofNat (Text.decimalValue digits + k) := by
  have hminted : looksMinted (stem ++ digits) :=
    looksMinted_iff.mpr ⟨stem, hstem, digits, hne, hdigits, rfl⟩
  have hfront : (stem ++ digits).filter (!Text.isDigit ·) = stem := by
    rw [List.filter_append, List.filter_eq_self.mpr, List.filter_eq_nil_iff.mpr, List.append_nil]
    · exact fun b hb => by simp [hdigits b hb]
    · exact fun b hb => by simp [isDigit_eq_false_of_mem_stem hstem hb]
  have hback : (stem ++ digits).filter Text.isDigit = digits := by
    rw [List.filter_append, List.filter_eq_nil_iff.mpr, List.filter_eq_self.mpr hdigits,
      List.nil_append]
    exact fun b hb => by simp [isDigit_eq_false_of_mem_stem hstem hb]
  rw [renumberName, if_pos hminted, hfront, hback]

lemma renumberName_append_ofNat {stem : Text} (hstem : stem ∈ mintedStems) (n k : Nat) :
    renumberName k (stem ++ Text.ofNat n) = stem ++ Text.ofNat (n + k) := by
  rw [renumberName_append hstem (Text.ofNat_ne_nil n) fun _ hb => Text.isDigit_of_mem_ofNat hb,
    Text.decimalValue_ofNat]

@[simp] lemma renumberName_mintEnv (n k : Nat) : renumberName k (mintEnv n) = mintEnv (n + k) :=
  renumberName_append_ofNat (by simp [mintedStems]) n k

@[simp] lemma renumberName_mintCode (n k : Nat) :
    renumberName k (mintCode n) = mintCode (n + k) :=
  renumberName_append_ofNat (by simp [mintedStems]) n k

@[simp] lemma renumberName_mintTemp (n k : Nat) :
    renumberName k (mintTemp n) = mintTemp (n + k) :=
  renumberName_append_ofNat (by simp [mintedStems]) n k

/-- Minted names stay minted, so they meet no other name before or after. -/
lemma eq_renumberName_iff {x name : Text} (hx : ¬ looksMinted x) (k : Nat) :
    x = renumberName k name ↔ x = name := by
  by_cases hname : looksMinted name
  · obtain ⟨stem, hstem, digits, hne, hdigits, rfl⟩ := looksMinted_iff.mp hname
    rw [renumberName_append hstem hne hdigits]
    constructor
    · rintro rfl
      exact absurd (looksMinted_append_ofNat hstem _) hx
    · rintro rfl
      exact absurd hname hx
  · rw [renumberName_of_not_looksMinted hname]

/-! ### Expressions -/

namespace Expr

mutual

/-- The expression with the numbers of minted environments, functions, temporaries and
callees increased. -/
def renumber (k : Nat) : Expr → Expr
  | num value => num value
  | ref name => ref name
  | slot env index => slot (renumberName k env) index
  | app func arg => app (renumberName k func) (arg.renumber k)
  | closure func captured => closure (renumberName k func) (renumberAll k captured)
  | letIn name bind body => letIn (renumberName k name) (bind.renumber k) (body.renumber k)
  | missing => missing

/-- The expressions with the numbers of minted names increased. -/
def renumberAll (k : Nat) : List Expr → List Expr
  | [] => []
  | e :: es => e.renumber k :: renumberAll k es

end

lemma renumberAll_eq (k : Nat) (es : List Expr) : renumberAll k es = es.map (renumber k) := by
  induction es with
  | nil => rfl
  | cons e es ih => rw [renumberAll, ih, List.map_cons]

lemma renumberAll_map_ref (k : Nat) (names : List Text) :
    renumberAll k (names.map ref) = names.map ref := by
  rw [renumberAll_eq, List.map_map]
  rfl

end Expr

/-- The substitution with the numbers of minted names in its replacements increased. -/
def Subst.renumber (k : Nat) (m : Subst) : Subst := m.map fun p => (p.1, p.2.renumber k)

namespace Subst

variable (k : Nat) {m : Subst}

lemma lookup_renumber (m : Subst) (x : Text) :
    (m.renumber k).lookup x = (m.lookup x).map (Expr.renumber k) := by
  induction m with
  | nil => rfl
  | cons p m ih =>
      obtain ⟨y, e⟩ := p
      rw [renumber, List.map_cons, ← renumber, List.lookup_cons, List.lookup_cons, ih]
      cases x == y <;> rfl

/-- Shadowing is the same before and after. -/
lemma renumber_without (hm : ∀ p ∈ m, ¬ looksMinted p.1) (name : Text) :
    (m.without name).renumber k = (m.renumber k).without (renumberName k name) := by
  rw [without, without, renumber, renumber, List.filter_map]
  congr 1
  refine List.filter_congr fun p hp => ?_
  have hsame : (p.1 == name) = (p.1 == renumberName k name) := by
    rw [Bool.eq_iff_iff, beq_iff_eq, beq_iff_eq, eq_renumberName_iff (hm p hp)]
  simp [bne, hsame]

end Subst

lemma renumber_slots (k : Nat) (env : Text) (captured : Names) :
    (slots env captured).renumber k = slots (renumberName k env) captured := by
  rw [slots, Subst.renumber, List.map_map]
  rfl

/-- **Substitution for names that are not minted** is the same before and after. -/
lemma Expr.renumber_substitute (k : Nat) (e : Expr) {m : Subst}
    (hm : ∀ p ∈ m, ¬ looksMinted p.1) :
    (e.substitute m).renumber k = (e.renumber k).substitute (m.renumber k) := by
  induction e using ind generalizing m with
  | num value => rfl
  | ref name =>
      rw [renumber, substitute_ref, substitute_ref, Subst.lookup_renumber]
      cases m.lookup name <;> rfl
  | slot env index => rfl
  | app func arg ih => rw [substitute, renumber, renumber, substitute, ih hm]
  | closure func captured ih =>
      have hall : (captured.map (substitute m)).map (renumber k) =
          (captured.map (renumber k)).map (substitute (m.renumber k)) := by
        rw [List.map_map, List.map_map]
        exact List.map_congr_left fun c hc => ih c hc hm
      rw [substitute, renumber, renumber, substitute, substituteAll_eq, substituteAll_eq,
        renumberAll_eq, renumberAll_eq, hall]
  | letIn name bind body ihb ih =>
      have hm' : ∀ p ∈ m.without name, ¬ looksMinted p.1 :=
        fun p hp => hm p (List.mem_filter.mp hp).1
      rw [substitute, renumber, renumber, substitute, ihb hm, ih hm', Subst.renumber_without k hm]
  | missing => rfl

/-! ### Conversion -/

/-- The declaration with the numbers of minted names increased. -/
def Decl.renumber (k : Nat) (d : Decl) : Decl :=
  { d with
    name := renumberName k d.name
    env := renumberName k d.env
    body := d.body.renumber k }

/-- The result of a conversion with all numbers increased. -/
def Converted.renumber (k : Nat) (c : Converted) : Converted :=
  ⟨c.decls.map (Decl.renumber k), c.expr.renumber k, c.next + k⟩

namespace Tree

/-- **Conversion is uniform in the number it starts at**: from a larger number on it gives
the same declarations and the same expression, with the number of every minted name and
the next number larger by the difference. -/
theorem convert_add (t : Tree) (ht : ∀ x ∈ t.names, ¬ looksMinted x) (n k : Nat) :
    t.convert (n + k) = (t.convert n).renumber k := by
  induction t generalizing n with
  | num value => rfl
  | var name => rfl
  | lam param body ih =>
      have hbody := ih (List.forall_mem_cons.mp ht).2 (n + 2)
      have hslots : ∀ p ∈ slots (mintEnv n) (lam param body).free, ¬ looksMinted p.1 :=
        fun p hp => ht p.1 (free_subset_names _ (fst_mem_of_mem_slots hp))
      have hnext : n + k + 2 = n + 2 + k := by omega
      have hcode : n + k + 1 = n + 1 + k := by omega
      simp only [convert, Converted.renumber, hnext, hcode, hbody, List.map_append,
        List.map_singleton, Decl.renumber, Expr.renumber, Expr.renumberAll_map_ref,
        Expr.renumber_substitute k _ hslots, renumber_slots, renumberName_mintEnv,
        renumberName_mintCode]
  | app func arg ihf iha =>
      obtain ⟨hfunc, harg⟩ := List.forall_mem_append.mp ht
      have hcallee := ihf hfunc n
      have hargument := iha harg ((func.convert n).next + 1)
      have hnext : (func.convert n).next + k + 1 = (func.convert n).next + 1 + k := by omega
      simp only [convert, Converted.renumber, hcallee, hnext, hargument, List.map_append,
        Expr.renumber, renumberName_mintTemp]
  | letIn name bind body ihb ih =>
      obtain ⟨hname, ht⟩ := List.forall_mem_cons.mp ht
      obtain ⟨hbind, hbody⟩ := List.forall_mem_append.mp ht
      have hbound := ihb hbind n
      have hrest := ih hbody (bind.convert n).next
      simp only [convert, Converted.renumber, hbound, hrest, List.map_append, Expr.renumber,
        renumberName_of_not_looksMinted hname]

/-- A function within a function, from a number on at which the numerals get longer. -/
theorem convert_add_nested :
    let t := lam "x" (letIn "y1" (var "x") (app (var "f") (lam "z" (app (var "y1") (var "z")))))
    (∀ x ∈ t.names, ¬ looksMinted x) ∧ t.convert (7 + 3) = (t.convert 7).renumber 3 :=
  ⟨by decide, convert_add _ (by decide) 7 3⟩

-- a captured name that looks minted can be shadowed by a temporary from one number on only
example :
    let t := lam "x" (app (var "f") (var "_3"))
    (t.convert 1).decls.map (·.render) ≠ ((t.convert 0).renumber 1).decls.map (·.render) := by
  decide +kernel

end Tree

end FlatClosure
