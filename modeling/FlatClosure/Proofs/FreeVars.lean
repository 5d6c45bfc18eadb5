/-
Free names, read compositionally.

Both walks that collect free names thread a scope and the names found so far.
What such a walk adds does not depend on either beyond leaving out the names
that they hold, so it is determined by the walk from nothing.

* `Uniform`: the walks of this kind; a reference is one, and walks compose in
  sequence (`Uniform.seq`) and below a binder (`Uniform.below`).
* `Tree.uniform_collectFree`, `Expr.uniform_collectFree`: the two walks.
* `Tree.free_lam`, `Tree.free_app`, `Tree.free_letIn` and their counterparts
  for expressions: the free names of a construct from those of its parts.
* `Tree.nodup_free`: no name is found twice.
* `Tree.free_rename`: a renaming that is injective on the names of a tree
  renames its free names.
* `Expr.free_closure_map_ref`: a closure that captures different names has
  them as its free names.
-/
import Mathlib.Data.List.Nodup
import Mathlib.Data.Set.Function
import FlatClosure.Program.FreeVars
import FlatClosure.Tree.FreeVars
import FlatClosure.Tree.Hygiene

namespace FlatClosure

/-! ### Walks -/

/-- A walk is uniform if it adds to the names found so far those names that it
finds from nothing, except the ones that are bound or found already. -/
def Uniform (walk : Scope → Names → Names) : Prop :=
  ∀ scope found, walk scope found =
    found ++ (walk [] []).filter fun x => x ∉ scope ∧ x ∉ found

lemma uniform_skip : Uniform fun _ found => found := by
  intro scope found
  simp

/-- A reference finds its name unless it is bound or found already. -/
lemma reference_eq (found : Names) (scope : Scope) (name : Text) :
    found.reference scope name =
      found ++ [name].filter fun x => x ∉ scope ∧ x ∉ found := by
  by_cases hs : name ∈ scope
  · simp [Names.reference, Scope.binds, hs]
  · by_cases hf : name ∈ found
    · simp [Names.reference, Scope.binds, Names.add, hs, hf]
    · simp [Names.reference, Scope.binds, Names.add, hs, hf]

lemma reference_nil (name : Text) : Names.reference [] [] name = [name] := by
  simp [reference_eq]

lemma uniform_reference (name : Text) :
    Uniform fun scope found => found.reference scope name := by
  intro scope found
  dsimp only
  rw [reference_nil, reference_eq]

section

variable {v w : Scope → Names → Names}

/-- Where nothing is bound, a walk adds what has not been found. -/
lemma Uniform.nil_scope (hw : Uniform w) (found : Names) :
    w [] found = found ++ (w [] []).filter (· ∉ found) := by
  rw [hw]
  simp

/-- Below one binder, a walk finds the names other than the bound one. -/
lemma Uniform.below_nil (hw : Uniform w) (name : Text) :
    w (Scope.declare [] name) [] = (w [] []).filter (· ≠ name) := by
  rw [hw]
  simp [Scope.declare]

lemma Uniform.seq (hv : Uniform v) (hw : Uniform w) :
    Uniform fun scope found => w scope (v scope found) := by
  intro scope found
  dsimp only
  rw [hw.nil_scope, hw, hv, List.filter_append, List.filter_filter, List.append_assoc]
  congr 2
  -- past the first walk, both sides leave out the same names
  refine List.filter_congr fun x _ => ?_
  by_cases hs : x ∈ scope
  · simp [hs]
  · by_cases hf : x ∈ found <;> simp [hs, hf]

lemma Uniform.below (hw : Uniform w) (name : Text) :
    Uniform fun scope found => w (scope.declare name) found := by
  intro scope found
  dsimp only
  rw [hw.below_nil, hw, List.filter_filter]
  congr 1
  refine List.filter_congr fun x _ => ?_
  by_cases hx : x = name
  · simp [Scope.declare, hx]
  · simp [Scope.declare, hx]

end

/-- Under a renaming that is injective on a set, the image of one of its
elements is among the images of others only if the element is among them. -/
lemma mem_map_iff_of_injOn {r : Text → Text} {s : Set Text} (hr : Set.InjOn r s)
    {x : Text} (hx : x ∈ s) {names : Names} (hnames : ∀ y ∈ names, y ∈ s) :
    r x ∈ names.map r ↔ x ∈ names := by
  constructor
  · intro h
    obtain ⟨y, hy, hyx⟩ := List.mem_map.mp h
    rw [← hr (hnames y hy) hx hyx]
    exact hy
  · exact List.mem_map_of_mem

/-! ### Trees -/

namespace Tree

lemma uniform_collectFree (t : Tree) :
    Uniform fun scope found => t.collectFree scope found := by
  induction t with
  | num value => exact uniform_skip
  | var name => exact uniform_reference name
  | lam param body ih => exact ih.below param
  | app func arg ihf iha => exact ihf.seq iha
  | letIn name bind body ihb ih => exact ihb.seq (ih.below name)

@[simp] lemma free_num (value : Int64) : (num value).free = [] := rfl

@[simp] lemma free_var (name : Text) : (var name).free = [name] := reference_nil name

lemma free_lam (param : Text) (body : Tree) :
    (lam param body).free = body.free.filter (· ≠ param) :=
  body.uniform_collectFree.below_nil param

lemma free_app (func arg : Tree) :
    (app func arg).free = func.free ++ arg.free.filter (· ∉ func.free) :=
  arg.uniform_collectFree.nil_scope func.free

lemma free_letIn (name : Text) (bind body : Tree) :
    (letIn name bind body).free =
      bind.free ++ (body.free.filter (· ≠ name)).filter (· ∉ bind.free) := by
  have h := (body.uniform_collectFree.below name).nil_scope bind.free
  rw [body.uniform_collectFree.below_nil] at h
  exact h

@[simp] lemma mem_free_lam {x param : Text} {body : Tree} :
    x ∈ (lam param body).free ↔ x ∈ body.free ∧ x ≠ param := by
  simp [free_lam]

@[simp] lemma mem_free_app {x : Text} {func arg : Tree} :
    x ∈ (app func arg).free ↔ x ∈ func.free ∨ x ∈ arg.free := by
  by_cases h : x ∈ func.free <;> simp [free_app, h]

@[simp] lemma mem_free_letIn {x name : Text} {bind body : Tree} :
    x ∈ (letIn name bind body).free ↔
      x ∈ bind.free ∨ x ∈ body.free ∧ x ≠ name := by
  by_cases h : x ∈ bind.free <;> simp [free_letIn, h]

/-- Free names are names of the tree. -/
lemma free_subset_names (t : Tree) : t.free ⊆ t.names := by
  induction t with
  | num value => simp
  | var name => simp [names]
  | lam param body ih =>
      intro x hx
      exact List.mem_cons_of_mem _ (ih (mem_free_lam.mp hx).1)
  | app func arg ihf iha =>
      intro x hx
      rcases mem_free_app.mp hx with hx | hx
      · exact List.mem_append_left _ (ihf hx)
      · exact List.mem_append_right _ (iha hx)
  | letIn name bind body ihb ih =>
      intro x hx
      rcases mem_free_letIn.mp hx with hx | hx
      · exact List.mem_cons_of_mem _ (List.mem_append_left _ (ihb hx))
      · exact List.mem_cons_of_mem _ (List.mem_append_right _ (ih hx.1))

/-- No name is found twice. -/
lemma nodup_free (t : Tree) : t.free.Nodup := by
  -- what is added to the names found so far is none of them
  have hadd : ∀ found names : Names, found.Nodup → names.Nodup →
      (found ++ names.filter (· ∉ found)).Nodup := by
    intro found names hfound hnames
    refine hfound.append (hnames.filter _) fun x hx hx' => ?_
    exact absurd hx (by simpa using (List.mem_filter.mp hx').2)
  induction t with
  | num value => exact List.nodup_nil
  | var name => simp
  | lam param body ih =>
      rw [free_lam]
      exact ih.filter _
  | app func arg ihf iha =>
      rw [free_app]
      exact hadd _ _ ihf iha
  | letIn name bind body ihb ih =>
      rw [free_letIn]
      exact hadd _ _ ihb (ih.filter _)

/-- A renaming that is injective on the names of a tree renames its free
names. -/
lemma free_rename {r : Text → Text} (t : Tree) (hr : Set.InjOn r {x | x ∈ t.names}) :
    (t.rename r).free = t.free.map r := by
  induction t with
  | num value => rfl
  | var name => simp [rename]
  | lam param body ih =>
      have hbody := ih (hr.mono fun x hx => List.mem_cons_of_mem _ hx)
      rw [rename, free_lam, free_lam, hbody, List.filter_map]
      congr 1
      refine List.filter_congr fun x hx => ?_
      have hiff : r x = r param ↔ x = param :=
        hr.eq_iff (List.mem_cons_of_mem _ (body.free_subset_names hx)) List.mem_cons_self
      simp [hiff]
  | app func arg ihf iha =>
      have hfunc := ihf (hr.mono fun x hx => List.mem_append_left _ hx)
      have harg := iha (hr.mono fun x hx => List.mem_append_right _ hx)
      rw [rename, free_app, free_app, hfunc, harg, List.map_append, List.filter_map]
      congr 2
      refine List.filter_congr fun x hx => ?_
      have hiff : r x ∈ func.free.map r ↔ x ∈ func.free :=
        mem_map_iff_of_injOn hr (List.mem_append_right _ (arg.free_subset_names hx))
          fun y hy => List.mem_append_left _ (func.free_subset_names hy)
      simp only [Function.comp, hiff]
  | letIn name bind body ihb ih =>
      have hbind := ihb (hr.mono fun x hx =>
        List.mem_cons_of_mem _ (List.mem_append_left _ hx))
      have hbody := ih (hr.mono fun x hx =>
        List.mem_cons_of_mem _ (List.mem_append_right _ hx))
      rw [rename, free_letIn, free_letIn, hbind, hbody, List.map_append, List.filter_filter,
        List.filter_filter, List.filter_map]
      congr 2
      refine List.filter_congr fun x hx => ?_
      have hname : x ∈ (letIn name bind body).names :=
        List.mem_cons_of_mem _ (List.mem_append_right _ (body.free_subset_names hx))
      have hiff : r x = r name ↔ x = name := hr.eq_iff hname List.mem_cons_self
      have hmem : r x ∈ bind.free.map r ↔ x ∈ bind.free :=
        mem_map_iff_of_injOn hr hname fun y hy =>
          List.mem_cons_of_mem _ (List.mem_append_left _ (bind.free_subset_names hy))
      simp only [Function.comp, ne_eq, hiff, hmem]

end Tree

/-! ### Expressions -/

namespace Expr

mutual

lemma uniform_collectFree : ∀ e : Expr,
    Uniform fun scope found => e.collectFree scope found
  | num _ => uniform_skip
  | ref name => uniform_reference name
  | slot env _ => uniform_reference env
  | app func arg => (uniform_reference func).seq arg.uniform_collectFree
  | closure _ captured => uniform_collectFreeAll captured
  | letIn name bind body =>
      bind.uniform_collectFree.seq (body.uniform_collectFree.below name)
  | missing => uniform_skip

lemma uniform_collectFreeAll : ∀ es : List Expr,
    Uniform fun scope found => collectFreeAll scope found es
  | [] => uniform_skip
  | e :: es => e.uniform_collectFree.seq (uniform_collectFreeAll es)

end

@[simp] lemma free_num (value : Int64) : (num value).free = [] := rfl

@[simp] lemma free_ref (name : Text) : (ref name).free = [name] := reference_nil name

@[simp] lemma free_slot (env : Text) (index : Int) : (slot env index).free = [env] :=
  reference_nil env

lemma free_app (func : Text) (arg : Expr) :
    (app func arg).free = func :: arg.free.filter (· ≠ func) := by
  have h := arg.uniform_collectFree.nil_scope [func]
  simp only [List.mem_singleton] at h
  rw [free, collectFree, reference_nil]
  exact h

lemma free_letIn (name : Text) (bind body : Expr) :
    (letIn name bind body).free =
      bind.free ++ (body.free.filter (· ≠ name)).filter (· ∉ bind.free) := by
  have h := (body.uniform_collectFree.below name).nil_scope bind.free
  rw [body.uniform_collectFree.below_nil] at h
  exact h

@[simp] lemma mem_free_app {x func : Text} {arg : Expr} :
    x ∈ (app func arg).free ↔ x = func ∨ x ∈ arg.free := by
  by_cases h : x = func <;> simp [free_app, h]

@[simp] lemma mem_free_letIn {x name : Text} {bind body : Expr} :
    x ∈ (letIn name bind body).free ↔
      x ∈ bind.free ∨ x ∈ body.free ∧ x ≠ name := by
  by_cases h : x ∈ bind.free <;> simp [free_letIn, h]

lemma mem_collectFreeAll {x : Text} : ∀ {es : List Expr},
    x ∈ collectFreeAll [] [] es ↔ ∃ e ∈ es, x ∈ e.free
  | [] => by simp [collectFreeAll]
  | e :: es => by
      have h := (uniform_collectFreeAll es).nil_scope e.free
      have hcons : collectFreeAll [] [] (e :: es) = collectFreeAll [] e.free es := rfl
      rw [hcons, h, List.mem_append, List.mem_filter, mem_collectFreeAll]
      by_cases hx : x ∈ e.free <;> simp [hx]

@[simp] lemma mem_free_closure {x func : Text} {captured : List Expr} :
    x ∈ (closure func captured).free ↔ ∃ e ∈ captured, x ∈ e.free :=
  mem_collectFreeAll

/-- A closure that captures different names has them as its free names. -/
lemma free_closure_map_ref (func : Text) {names : Names} (hnodup : names.Nodup) :
    (closure func (names.map ref)).free = names := by
  change collectFreeAll [] [] (names.map ref) = names
  induction names with
  | nil => rfl
  | cons name names ih =>
      obtain ⟨hnotMem, hnodup⟩ := List.nodup_cons.mp hnodup
      have hkeep : names.filter (· ∉ [name]) = names :=
        List.filter_eq_self.mpr fun x hx => by
          simpa using fun heq : x = name => hnotMem (heq ▸ hx)
      calc collectFreeAll [] [] ((name :: names).map ref)
          = collectFreeAll [] [name] (names.map ref) := by
            rw [List.map_cons, collectFreeAll, collectFree, reference_nil]
        _ = [name] ++ names.filter (· ∉ [name]) := by
            rw [(uniform_collectFreeAll _).nil_scope, ih hnodup]
        _ = name :: names := by rw [hkeep, List.singleton_append]

end Expr

end FlatClosure
