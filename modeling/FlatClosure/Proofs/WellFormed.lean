/-
Well-formed expressions and declarations.

An expression stands in a place that offers local names, environments and
declared functions. It is well formed there if it uses nothing else, reads
environments within their size, and builds closures with as many captured
values as their code has slots.

* `ExprPlace`, `Expr.WellFormed`: the judgement; `Decl.place` is the place of the
  body of a declaration.
* `DeclsWellFormed`: every declaration is well formed over the earlier ones;
  `declsWellFormed_append` splits a list.
* `Expr.slotReads`, `Expr.closureSites`, `Expr.binders`: the slots that an
  expression reads, the closures that it builds and the names that it binds, from
  left to right.
* `Expr.WellFormed.exists_slotRead`, `.of_mem_slotReads`, `.mem_of_mem_free`,
  `.of_mem_closureSites`: what the judgement says about slots, free names and
  closures; `Decl.eq_of_mem_free`, `Decl.of_mem_slotReads`,
  `Decl.env_mem_free_iff`: what it says about the body of a declaration.
-/
import FlatClosure.Proofs.FreeVars
import FlatClosure.Program.Substitute

namespace FlatClosure

namespace Expr

/-- The induction principle of the nested inductive: a property holds of every
expression once a closure inherits it from what it captures. -/
@[elab_as_elim]
theorem ind {P : Expr → Prop} (num : ∀ value, P (num value)) (ref : ∀ name, P (ref name))
    (slot : ∀ env index, P (slot env index)) (app : ∀ func arg, P arg → P (app func arg))
    (closure : ∀ func captured, (∀ c ∈ captured, P c) → P (closure func captured))
    (letIn : ∀ name bind body, P bind → P body → P (letIn name bind body))
    (missing : P missing) (e : Expr) : P e :=
  @Expr.rec P (fun es => ∀ c ∈ es, P c) num ref slot app closure letIn missing
    (List.forall_mem_nil P) (fun _ _ he hes => List.forall_mem_cons.mpr ⟨he, hes⟩) e

/-- Whether the expression only reads a name or a slot. -/
def IsRead : Expr → Prop
  | ref _ | slot _ _ => True
  | _ => False

@[simp] lemma isRead_ref (name : Text) : (ref name).IsRead := trivial

@[simp] lemma isRead_slot (env : Text) (index : Int) : (slot env index).IsRead := trivial

/-! ### Slots and closures of an expression -/

mutual

/-- The slots that an expression reads, from left to right. -/
def slotReads : Expr → List (Text × Int)
  | num _ | ref _ | missing => []
  | slot env index => [(env, index)]
  | app _ arg => arg.slotReads
  | closure _ captured => slotReadsAll captured
  | letIn _ bind body => bind.slotReads ++ body.slotReads

/-- The slots that expressions read, from left to right. -/
def slotReadsAll : List Expr → List (Text × Int)
  | [] => []
  | e :: es => e.slotReads ++ slotReadsAll es

end

mutual

/-- The closures that an expression builds, from left to right: the function
and what is captured. -/
def closureSites : Expr → List (Text × List Expr)
  | num _ | ref _ | slot _ _ | missing => []
  | app _ arg => arg.closureSites
  | closure func captured => (func, captured) :: closureSitesAll captured
  | letIn _ bind body => bind.closureSites ++ body.closureSites

/-- The closures that expressions build, from left to right. -/
def closureSitesAll : List Expr → List (Text × List Expr)
  | [] => []
  | e :: es => e.closureSites ++ closureSitesAll es

end

mutual

/-- The names that an expression binds. -/
def binders : Expr → List Text
  | num _ | ref _ | slot _ _ | missing => []
  | app _ arg => arg.binders
  | closure _ captured => bindersAll captured
  | letIn name bind body => name :: (bind.binders ++ body.binders)

/-- The names that expressions bind. -/
def bindersAll : List Expr → List Text
  | [] => []
  | e :: es => e.binders ++ bindersAll es

end

lemma slotReadsAll_eq (es : List Expr) : slotReadsAll es = es.flatMap slotReads := by
  induction es with
  | nil => rfl
  | cons e es ih => rw [slotReadsAll, ih, List.flatMap_cons]

lemma closureSitesAll_eq (es : List Expr) : closureSitesAll es = es.flatMap closureSites := by
  induction es with
  | nil => rfl
  | cons e es ih => rw [closureSitesAll, ih, List.flatMap_cons]

lemma bindersAll_eq (es : List Expr) : bindersAll es = es.flatMap binders := by
  induction es with
  | nil => rfl
  | cons e es ih => rw [bindersAll, ih, List.flatMap_cons]

lemma substituteAll_eq (m : Subst) (es : List Expr) :
    substituteAll m es = es.map (substitute m) := by
  induction es with
  | nil => rfl
  | cons e es ih => rw [substituteAll, ih, List.map_cons]

/-- An environment whose slot is read is free, if its name is not bound. -/
lemma mem_free_of_mem_slotReads {e : Expr} {r : Text × Int} (hr : r ∈ e.slotReads)
    (hbound : r.1 ∉ e.binders) : r.1 ∈ e.free := by
  induction e using ind with
  | num value => exact absurd hr List.not_mem_nil
  | ref name => exact absurd hr List.not_mem_nil
  | slot env index =>
      rw [slotReads, List.mem_singleton] at hr
      rw [hr, free_slot]
      exact List.mem_cons_self
  | app func arg ih => exact mem_free_app.mpr (.inr (ih hr hbound))
  | closure func captured ih =>
      rw [slotReads, slotReadsAll_eq] at hr
      rw [binders, bindersAll_eq] at hbound
      obtain ⟨c, hc, hr⟩ := List.mem_flatMap.mp hr
      refine mem_free_closure.mpr ⟨c, hc, ih c hc hr fun h => hbound ?_⟩
      exact List.mem_flatMap.mpr ⟨c, hc, h⟩
  | letIn name bind body ihb ih =>
      simp only [binders, List.mem_cons, List.mem_append, not_or] at hbound
      obtain ⟨hname, hbind, hbody⟩ := hbound
      rcases List.mem_append.mp hr with hr | hr
      · exact mem_free_letIn.mpr (.inl (ihb hr hbind))
      · exact mem_free_letIn.mpr (.inr ⟨ih hr hbody, hname⟩)
  | missing => exact absurd hr List.not_mem_nil

end Expr

/-! ### Well-formed expressions -/

/-- What the place of an expression offers. -/
structure ExprPlace where
  /-- The names bound there. -/
  locals : List Text
  /-- The environments that can be read there, with their sizes. -/
  envs : List (Text × Int)
  /-- The functions declared before. -/
  decls : List Decl

/-- The place below a binder of `name`. -/
def ExprPlace.bind (p : ExprPlace) (name : Text) : ExprPlace := { p with locals := name :: p.locals }

/-- The place of the body of a declaration after the `earlier` ones. -/
def Decl.place (d : Decl) (earlier : List Decl) : ExprPlace :=
  ⟨[d.arg], [(d.env, d.slotCount)], earlier⟩

namespace Expr

mutual

/-- Whether an expression uses only what its place offers. -/
def WellFormed (p : ExprPlace) : Expr → Prop
  | num _ => True
  | ref name => name ∈ p.locals
  | slot env index => ∃ size, (env, size) ∈ p.envs ∧ 0 ≤ index ∧ index < size
  | app func arg => func ∈ p.locals ∧ arg.WellFormed p
  | closure func captured =>
    (∃ d ∈ p.decls, d.name = func ∧ d.slotCount = captured.length) ∧
      (∀ c ∈ captured, c.IsRead) ∧ AllWellFormed p captured
  | letIn name bind body => bind.WellFormed p ∧ body.WellFormed (p.bind name)
  | missing => False

/-- Whether expressions use only what their place offers. -/
def AllWellFormed (p : ExprPlace) : List Expr → Prop
  | [] => True
  | e :: es => e.WellFormed p ∧ AllWellFormed p es

end

lemma allWellFormed_iff {p : ExprPlace} {es : List Expr} :
    AllWellFormed p es ↔ ∀ e ∈ es, e.WellFormed p := by
  induction es with
  | nil => simp [AllWellFormed]
  | cons e es ih => simp [AllWellFormed, ih]

/-- A read is well formed below a binder if it is so above. -/
lemma WellFormed.bind_of_isRead {p : ExprPlace} {e : Expr} (h : e.WellFormed p) (he : e.IsRead)
    (name : Text) : e.WellFormed (p.bind name) := by
  cases e with
  | ref x => exact List.mem_cons_of_mem name h
  | slot env index => exact h
  | _ => exact absurd he id

/-- In a well-formed expression, a free name that is no local of the place is an
environment whose slot is read. -/
lemma WellFormed.exists_slotRead {e : Expr} {p : ExprPlace} (h : e.WellFormed p) {x : Text}
    (hx : x ∈ e.free) (hlocal : x ∉ p.locals) : ∃ r ∈ e.slotReads, r.1 = x := by
  induction e using ind generalizing p with
  | num value => exact absurd hx List.not_mem_nil
  | ref name =>
      rw [free_ref, List.mem_singleton] at hx
      exact absurd (hx ▸ h) hlocal
  | slot env index =>
      rw [free_slot, List.mem_singleton] at hx
      exact ⟨(env, index), List.mem_singleton_self _, hx.symm⟩
  | app func arg ih =>
      rcases mem_free_app.mp hx with rfl | hx
      · exact absurd h.1 hlocal
      · exact ih h.2 hx hlocal
  | closure func captured ih =>
      obtain ⟨c, hc, hx⟩ := mem_free_closure.mp hx
      obtain ⟨r, hr, hrx⟩ := ih c hc (allWellFormed_iff.mp h.2.2 c hc) hx hlocal
      refine ⟨r, ?_, hrx⟩
      rw [slotReads, slotReadsAll_eq]
      exact List.mem_flatMap.mpr ⟨c, hc, hr⟩
  | letIn name bind body ihb ih =>
      rcases mem_free_letIn.mp hx with hx | ⟨hx, hne⟩
      · obtain ⟨r, hr, hrx⟩ := ihb h.1 hx hlocal
        exact ⟨r, List.mem_append_left _ hr, hrx⟩
      · have hlocal' : x ∉ (p.bind name).locals := by simp [ExprPlace.bind, hne, hlocal]
        obtain ⟨r, hr, hrx⟩ := ih h.2 hx hlocal'
        exact ⟨r, List.mem_append_right _ hr, hrx⟩
  | missing => exact absurd h id

/-- A well-formed expression reads environments of its place within their
size. -/
lemma WellFormed.of_mem_slotReads {e : Expr} {p : ExprPlace} (h : e.WellFormed p)
    {r : Text × Int} (hr : r ∈ e.slotReads) :
    ∃ size, (r.1, size) ∈ p.envs ∧ 0 ≤ r.2 ∧ r.2 < size := by
  induction e using ind generalizing p with
  | num value => exact absurd hr (by simp [slotReads])
  | ref name => exact absurd hr (by simp [slotReads])
  | slot env index =>
      rw [slotReads, List.mem_singleton] at hr
      rw [hr]
      exact h
  | app func arg ih => exact ih h.2 hr
  | closure func captured ih =>
      rw [slotReads, slotReadsAll_eq] at hr
      obtain ⟨c, hc, hr⟩ := List.mem_flatMap.mp hr
      exact ih c hc (allWellFormed_iff.mp h.2.2 c hc) hr
  | letIn name bind body ihb ih =>
      rcases List.mem_append.mp hr with hr | hr
      · exact ihb h.1 hr
      · exact ih (p := p.bind name) h.2 hr
  | missing => exact absurd h id

/-- The free names of a well-formed expression are local names and
environments of its place. -/
lemma WellFormed.mem_of_mem_free {e : Expr} {p : ExprPlace} (h : e.WellFormed p) {x : Text}
    (hx : x ∈ e.free) : x ∈ p.locals ∨ ∃ size, (x, size) ∈ p.envs := by
  by_cases hlocal : x ∈ p.locals
  · exact Or.inl hlocal
  · obtain ⟨r, hr, rfl⟩ := h.exists_slotRead hx hlocal
    obtain ⟨size, hmem, -⟩ := h.of_mem_slotReads hr
    exact Or.inr ⟨size, hmem⟩

/-- A closure in a well-formed expression is built over a declared function
and captures one name or slot for each slot of it. -/
lemma WellFormed.of_mem_closureSites {e : Expr} {p : ExprPlace} (h : e.WellFormed p)
    {site : Text × List Expr} (hs : site ∈ e.closureSites) :
    (∃ d ∈ p.decls, d.name = site.1 ∧ d.slotCount = site.2.length) ∧
      ∀ c ∈ site.2, c.IsRead := by
  induction e using ind generalizing p with
  | num value => exact absurd hs (by simp [closureSites])
  | ref name => exact absurd hs (by simp [closureSites])
  | slot env index => exact absurd hs (by simp [closureSites])
  | app func arg ih => exact ih h.2 hs
  | closure func captured ih =>
      rw [closureSites, closureSitesAll_eq] at hs
      rcases List.mem_cons.mp hs with rfl | hs
      · exact ⟨h.1, h.2.1⟩
      · obtain ⟨c, hc, hs⟩ := List.mem_flatMap.mp hs
        exact ih c hc (allWellFormed_iff.mp h.2.2 c hc) hs
  | letIn name bind body ihb ih =>
      rcases List.mem_append.mp hs with hs | hs
      · exact ihb h.1 hs
      · exact ih (p := p.bind name) h.2 hs
  | missing => exact absurd h id

end Expr

/-! ### Well-formed declarations -/

namespace Decl

variable {d : Decl} {earlier : List Decl}

/-- The free names of the body of a declaration are its parameters. -/
lemma eq_of_mem_free (h : d.body.WellFormed (d.place earlier)) {x : Text}
    (hx : x ∈ d.body.free) : x = d.arg ∨ x = d.env := by
  rcases h.mem_of_mem_free hx with hmem | ⟨size, hmem⟩
  · exact Or.inl (List.mem_singleton.mp hmem)
  · exact Or.inr (congrArg Prod.fst (List.mem_singleton.mp hmem))

/-- The body of a declaration reads its own slots. -/
lemma of_mem_slotReads (h : d.body.WellFormed (d.place earlier)) {r : Text × Int}
    (hr : r ∈ d.body.slotReads) : r.1 = d.env ∧ 0 ≤ r.2 ∧ r.2 < d.slotCount := by
  obtain ⟨size, hmem, hle, hlt⟩ := h.of_mem_slotReads hr
  obtain ⟨henv, rfl⟩ := Prod.mk.inj (List.mem_singleton.mp hmem)
  exact ⟨henv, hle, hlt⟩

/-- The environment of a declaration is free in its body if a slot is read, unless
its name is bound otherwise. -/
lemma env_mem_free_iff (h : d.body.WellFormed (d.place earlier)) (harg : d.env ≠ d.arg)
    (hbinders : d.env ∉ d.body.binders) :
    d.env ∈ d.body.free ↔ ∃ r, r ∈ d.body.slotReads := by
  constructor
  · intro hmem
    obtain ⟨r, hr, -⟩ := h.exists_slotRead hmem fun hlocal => harg (List.mem_singleton.mp hlocal)
    exact ⟨r, hr⟩
  · rintro ⟨r, hr⟩
    obtain ⟨henv, -⟩ := of_mem_slotReads h hr
    rw [← henv] at hbinders ⊢
    exact Expr.mem_free_of_mem_slotReads hr hbinders

end Decl

/-- Whether each declaration is well formed over the ones before it, of which
`earlier` come before the list. -/
def DeclsWellFormed (earlier : List Decl) : List Decl → Prop
  | [] => True
  | d :: ds => d.body.WellFormed (d.place earlier) ∧ DeclsWellFormed (earlier ++ [d]) ds

lemma declsWellFormed_append {earlier ds ds' : List Decl} :
    DeclsWellFormed earlier (ds ++ ds') ↔
      DeclsWellFormed earlier ds ∧ DeclsWellFormed (earlier ++ ds) ds' := by
  induction ds generalizing earlier with
  | nil => simp [DeclsWellFormed]
  | cons d ds ih =>
      simp only [List.cons_append, DeclsWellFormed, ih, List.append_assoc]
      exact and_assoc.symm

/-- Each body is well formed over the declarations before it. -/
lemma DeclsWellFormed.body {earlier later : List Decl} {d : Decl}
    (h : DeclsWellFormed [] (earlier ++ d :: later)) : d.body.WellFormed (d.place earlier) :=
  (declsWellFormed_append.mp h).2.1

lemma DeclsWellFormed.exists_of_mem {ds : List Decl} (h : DeclsWellFormed [] ds) {d : Decl}
    (hd : d ∈ ds) : ∃ earlier ⊆ ds, d.body.WellFormed (d.place earlier) := by
  obtain ⟨earlier, later, rfl⟩ := List.append_of_mem hd
  exact ⟨earlier, List.subset_append_left _ _, h.body⟩

end FlatClosure
