/-
What generated C declares and reads.

* `Locals.declareAll`: the identifiers for names that are bound one after the
  other; `Locals.mem_declareAll`, `Locals.exists_of_mem_declareAll`: which names
  are among them.
* `CItem.variables`, `CItem.reads`: what a function declares, and what it reads
  in the order of its text.
* `Expr.references`: the places at which an expression refers to a name, each
  with the bindings around it.
* `Expr.declareAll_binders`, `Expr.reads_toC`: a translated expression declares
  one local for each binder and reads one identifier for each reference.
* `Expr.unbound_of_mem_references`, `Expr.exists_unbound`: the references to
  names that are not bound, in a well-formed expression.
-/
import FlatClosure.Proofs.CNames

namespace FlatClosure

/-! ### Identifiers for many names -/

namespace Locals

/-- The identifiers for names that are bound one after the other. -/
def declareAll (l : Locals) : List Text → List Text × Locals
  | [] => ([], l)
  | name :: names =>
    ((l.declare name).1 :: ((l.declare name).2.declareAll names).1,
      ((l.declare name).2.declareAll names).2)

variable {l : Locals} {x : Text} {names : List Text}

lemma declareAll_append (l : Locals) (names names' : List Text) :
    l.declareAll (names ++ names') =
      ((l.declareAll names).1 ++ ((l.declareAll names).2.declareAll names').1,
        ((l.declareAll names).2.declareAll names').2) := by
  induction names generalizing l with
  | nil => rfl
  | cons name names ih => rw [List.cons_append, declareAll, ih]; rfl

lemma declared_declareAll (l : Locals) (names : List Text) :
    (l.declareAll names).2.declared = (l.declareAll names).1.reverse ++ l.declared := by
  induction names generalizing l with
  | nil => rfl
  | cons name names ih => simp [declareAll, ih, declared_declare]

/-- A name that may be declared stands for itself. -/
lemma declare_of_notMem {name : Text} (h : name ∉ l.avoided) : (l.declare name).1 = name := by
  have hsearch : ∀ tries, l.search name tries l.suffix name = (name, l.suffix) := by
    intro tries
    cases tries with
    | zero => rfl
    | succ tries => rw [search, if_neg (fun htaken => h (taken_iff.mp htaken))]
  rw [declare, hsearch]

/-- A bound name is declared, unless C or a function has it. -/
lemma mem_declareAll (hx : x ∈ names) (hreserved : x ∉ reservedWords) (hglobals : x ∉ l.globals) :
    x ∈ (l.declareAll names).1 ∨ x ∈ l.declared := by
  rw [← List.mem_reverse, ← List.mem_append, ← declared_declareAll]
  induction names generalizing l with
  | nil => exact absurd hx List.not_mem_nil
  | cons name names ih =>
      rw [declareAll]
      by_cases hmem : x ∈ names
      · exact ih hmem (by rwa [globals_declare])
      · obtain rfl := (List.mem_cons.mp hx).resolve_right hmem
        rw [declared_declareAll, declared_declare]
        refine List.mem_append_right _ ?_
        -- an earlier identifier may have been the same
        by_cases hdeclared : x ∈ l.declared
        · exact List.mem_cons_of_mem _ hdeclared
        · have havoided : x ∉ l.avoided := by simp [avoided, hreserved, hglobals, hdeclared]
          rw [declare_of_notMem havoided]
          exact List.mem_cons_self

/-- An identifier is not reserved, and is a bound name or one with a suffix. -/
lemma exists_of_mem_declareAll (hx : x ∈ (l.declareAll names).1) :
    x ∉ reservedWords ∧ ∃ name ∈ names, x = name ∨ ∃ n, x = name ++ "_" ++ Text.ofNat n := by
  induction names generalizing l with
  | nil => exact absurd hx List.not_mem_nil
  | cons name names ih =>
      rcases List.mem_cons.mp hx with rfl | hx
      · refine ⟨(l.declare_notMem name).2.1, name, List.mem_cons_self, ?_⟩
        obtain ⟨k, heq, -⟩ := l.declare_eq name
        rw [heq]
        cases k with
        | zero => exact Or.inl rfl
        | succ k => exact Or.inr ⟨l.suffix + k + 1, rfl⟩
      · obtain ⟨hreserved, name', hname', hform⟩ := ih hx
        exact ⟨hreserved, name', List.mem_cons_of_mem _ hname', hform⟩

end Locals

/-! ### What a function declares and reads -/

namespace CExpr

mutual

/-- The locals and parameters whose values are read, from left to right. -/
def reads : CExpr → List Text
  | int _ | slot _ _ => []
  | read name => [name]
  | call callee arg => callee :: arg.reads
  | closure _ captured => readsAll captured

/-- The locals and parameters whose values expressions read. -/
def readsAll : List CExpr → List Text
  | [] => []
  | e :: es => e.reads ++ readsAll es

end

end CExpr

/-- What a statement declares. -/
def CStmt.locals : CStmt → List Text
  | declare name => [name]
  | assign _ _ => []

/-- What a statement reads. -/
def CStmt.reads : CStmt → List Text
  | declare _ => []
  | assign _ value => value.reads

/-- The locals of a body. -/
def CBody.locals (body : CBody) : List Text := body.stmts.flatMap CStmt.locals

/-- What a body reads, in the order of its text. -/
def CBody.reads (body : CBody) : List Text := body.stmts.flatMap CStmt.reads ++ body.value.reads

/-- The parameters and locals of a function. -/
def CItem.variables : CItem → List Text
  | function _ env arg body => env :: arg :: body.locals
  | main body => body.locals

/-- What a function reads, in the order of its text. -/
def CItem.reads : CItem → List Text
  | function _ _ _ body | main body => body.reads

/-! ### References of an expression -/

/-- A place at which a name is referred to. -/
structure Reference where
  name : Text
  /-- The identifiers of the names that are bound there. -/
  scope : Bindings

namespace Reference

/-- What is read at the place. -/
def identifier (r : Reference) : Text := r.scope.identifier r.name

/-- Whether the name is bound at the place. -/
def IsBound (r : Reference) : Prop := r.name ∈ r.scope.map Prod.fst

/-- A name that is not bound stands for itself. -/
lemma identifier_eq_name {r : Reference} (h : ¬ r.IsBound) : r.identifier = r.name := by
  have hlook : r.scope.lookup r.name = none := by
    refine List.lookup_eq_none_iff.mpr fun p hp => bne_iff_ne.mpr fun heq => h ?_
    exact List.mem_map.mpr ⟨p, hp, heq.symm⟩
  rw [identifier, Bindings.identifier, hlook, Option.getD_none]

end Reference

/-- The references of an expression: those that its statements make, and those
that are left to its value. -/
structure References where
  stmts : List Reference
  value : List Reference

/-- All references, in the order of the text. -/
def References.all (rs : References) : List Reference := rs.stmts ++ rs.value

lemma References.mem_all {rs : References} {r : Reference} :
    r ∈ rs.all ↔ r ∈ rs.stmts ∨ r ∈ rs.value := List.mem_append

/-- Whether statements, and the values after them, read what the references
read. -/
structure References.ReadBy (rs : References) (stmts : List CStmt) (values : List Text) :
    Prop where
  stmts_eq : stmts.flatMap CStmt.reads = rs.stmts.map Reference.identifier
  values_eq : values = rs.value.map Reference.identifier

lemma References.ReadBy.reads_eq {rs : References} {body : CBody}
    (h : rs.ReadBy body.stmts body.value.reads) :
    body.reads = rs.all.map Reference.identifier := by
  rw [CBody.reads, References.all, List.map_append, h.stmts_eq, h.values_eq]

namespace Expr

mutual

/-- The references of an expression. -/
def references (scope : Bindings) (l : Locals) : Expr → References
  | num _ | slot _ _ | missing => ⟨[], []⟩
  | ref name => ⟨[], [⟨name, scope⟩]⟩
  | app func arg =>
    let argument := arg.references scope l
    ⟨argument.stmts, ⟨func, scope⟩ :: argument.value⟩
  | closure _ captured => referencesAll scope l captured
  | letIn name bind body =>
    let inner := (l.declare name).2
    let bound := bind.references scope inner
    let rest := body.references ((name, (l.declare name).1) :: scope)
      (inner.declareAll bind.binders).2
    ⟨bound.all ++ rest.stmts, rest.value⟩

/-- The references of expressions. -/
def referencesAll (scope : Bindings) (l : Locals) : List Expr → References
  | [] => ⟨[], []⟩
  | e :: es =>
    let first := e.references scope l
    let rest := referencesAll scope (l.declareAll e.binders).2 es
    ⟨first.stmts ++ rest.stmts, first.value ++ rest.value⟩

end

variable {envs scope : Bindings} {l l' : Locals} {body : CBody} {r : Reference}

lemma mem_references_app {func : Text} {arg : Expr} :
    r ∈ ((app func arg).references scope l).all ↔
      r = ⟨func, scope⟩ ∨ r ∈ (arg.references scope l).all := by
  simp only [references, References.mem_all, List.mem_cons]
  exact or_left_comm

lemma mem_references_letIn {name : Text} {bind e : Expr} :
    r ∈ ((letIn name bind e).references scope l).all ↔
      r ∈ (bind.references scope (l.declare name).2).all ∨
      r ∈ (e.references ((name, (l.declare name).1) :: scope)
        ((l.declare name).2.declareAll bind.binders).2).all := by
  simp only [references, References.mem_all, List.mem_append, or_assoc]

/-- The references of expressions are those of each of them. -/
lemma mem_referencesAll_cons {e : Expr} {es : List Expr} :
    r ∈ (referencesAll scope l (e :: es)).all ↔
      r ∈ (e.references scope l).all ∨
      r ∈ (referencesAll scope (l.declareAll e.binders).2 es).all := by
  simp only [referencesAll, References.mem_all, List.mem_append]
  exact or_or_or_comm

lemma exists_of_mem_referencesAll {es : List Expr} (h : r ∈ (referencesAll scope l es).all) :
    ∃ e ∈ es, ∃ l', r ∈ (e.references scope l').all := by
  induction es generalizing l with
  | nil => exact absurd h List.not_mem_nil
  | cons e es ih =>
      rcases mem_referencesAll_cons.mp h with h | h
      · exact ⟨e, List.mem_cons_self, l, h⟩
      · obtain ⟨e', he', l', h⟩ := ih h
        exact ⟨e', List.mem_cons_of_mem e he', l', h⟩

lemma exists_subset_referencesAll {es : List Expr} {e : Expr} (he : e ∈ es) (l : Locals) :
    ∃ l', (e.references scope l').all ⊆ (referencesAll scope l es).all := by
  induction es generalizing l with
  | nil => exact absurd he List.not_mem_nil
  | cons c es ih =>
      rcases List.mem_cons.mp he with rfl | he
      · exact ⟨l, fun r hr => mem_referencesAll_cons.mpr (Or.inl hr)⟩
      · obtain ⟨l', hl'⟩ := ih he (l.declareAll c.binders).2
        exact ⟨l', fun r hr => mem_referencesAll_cons.mpr (Or.inr (hl' hr))⟩

/-! ### Translated expressions -/

lemma declareAll_bindersAll {es : List Expr}
    (hes : ∀ e ∈ es, ∀ l body l', e.toC envs scope l = .ok (body, l') →
      l.declareAll e.binders = (body.locals, l'))
    {stmts : List CStmt} {values : List CExpr}
    (h : toCAll envs scope l es = .ok (stmts, values, l')) :
    l.declareAll (bindersAll es) = (stmts.flatMap CStmt.locals, l') := by
  induction es generalizing l stmts values with
  | nil => cases h; rfl
  | cons e es ih =>
      obtain ⟨first, l₁, stmts', values', hfirst, hrest, rfl, -⟩ := exists_of_toCAll_cons h
      rw [bindersAll, Locals.declareAll_append, hes e List.mem_cons_self l first l₁ hfirst,
        ih (fun e' he' => hes e' (List.mem_cons_of_mem e he')) hrest, List.flatMap_append]
      rfl

/-- **The locals of a translated expression** are the identifiers of its binders,
in their order. -/
lemma declareAll_binders (e : Expr) (h : e.toC envs scope l = .ok (body, l')) :
    l.declareAll e.binders = (body.locals, l') := by
  induction e using ind generalizing scope l body l' with
  | num value => cases h; rfl
  | ref name => cases h; rfl
  | slot env index =>
      obtain ⟨id, -, rfl, rfl⟩ := exists_of_toC_slot h
      rfl
  | app func arg ih =>
      obtain ⟨argument, harg, rfl⟩ := exists_of_toC_app h
      have hlocals := ih harg
      exact hlocals
  | closure func captured ih =>
      obtain ⟨stmts, values, hall, rfl⟩ := exists_of_toC_closure h
      exact declareAll_bindersAll (fun c hc _ _ _ => ih c hc) hall
  | letIn name bind e ihb ih =>
      obtain ⟨bound, l₁, rest, hbind, hrest, rfl⟩ := exists_of_toC_letIn h
      rw [binders, Locals.declareAll, Locals.declareAll_append, ihb hbind, ih hrest]
      simp [CBody.locals, CStmt.locals]
  | missing => exact absurd h (by simp [toC])

lemma locals_toC (e : Expr) (h : e.toC envs scope l = .ok (body, l')) :
    body.locals = (l.declareAll e.binders).1 := by
  rw [e.declareAll_binders h]

lemma reads_toCAll {es : List Expr}
    (hes : ∀ e ∈ es, ∀ l body l', e.toC envs scope l = .ok (body, l') →
      (e.references scope l).ReadBy body.stmts body.value.reads)
    {stmts : List CStmt} {values : List CExpr}
    (h : toCAll envs scope l es = .ok (stmts, values, l')) :
    (referencesAll scope l es).ReadBy stmts (CExpr.readsAll values) := by
  induction es generalizing l stmts values with
  | nil => cases h; exact ⟨rfl, rfl⟩
  | cons e es ih =>
      obtain ⟨first, l₁, stmts', values', hfirst, hrest, rfl, rfl⟩ := exists_of_toCAll_cons h
      obtain ⟨hstmts, hvalue⟩ := hes e List.mem_cons_self l first l₁ hfirst
      obtain ⟨hstmts', hvalues'⟩ := ih (fun e' he' => hes e' (List.mem_cons_of_mem e he')) hrest
      have hlocals : (l.declareAll e.binders).2 = l₁ :=
        congrArg Prod.snd (e.declareAll_binders hfirst)
      rw [referencesAll, hlocals]
      refine ⟨?_, ?_⟩
      · rw [List.flatMap_append, hstmts, hstmts', List.map_append]
      · rw [CExpr.readsAll, hvalue, hvalues', List.map_append]

/-- **Each reference is one read** of the translated expression. -/
lemma reads_toC (e : Expr) (h : e.toC envs scope l = .ok (body, l')) :
    (e.references scope l).ReadBy body.stmts body.value.reads := by
  induction e using ind generalizing scope l body l' with
  | num value => cases h; exact ⟨rfl, rfl⟩
  | ref name => cases h; exact ⟨rfl, rfl⟩
  | slot env index =>
      obtain ⟨id, -, rfl, rfl⟩ := exists_of_toC_slot h
      exact ⟨rfl, rfl⟩
  | app func arg ih =>
      obtain ⟨argument, harg, rfl⟩ := exists_of_toC_app h
      obtain ⟨hstmts, hvalue⟩ := ih harg
      exact ⟨hstmts, congrArg (scope.identifier func :: ·) hvalue⟩
  | closure func captured ih =>
      obtain ⟨stmts, values, hall, rfl⟩ := exists_of_toC_closure h
      exact reads_toCAll (fun c hc _ _ _ => ih c hc) hall
  | letIn name bind e ihb ih =>
      obtain ⟨bound, l₁, rest, hbind, hrest, rfl⟩ := exists_of_toC_letIn h
      obtain ⟨hstmts, hvalue⟩ := ihb hbind
      obtain ⟨hstmts', hvalue'⟩ := ih hrest
      have hlocals : ((l.declare name).2.declareAll bind.binders).2 = l₁ :=
        congrArg Prod.snd (bind.declareAll_binders hbind)
      rw [references, hlocals]
      refine ⟨?_, hvalue'⟩
      simp [CStmt.reads, hstmts, hvalue, hstmts', References.all]
  | missing => exact absurd h (by simp [toC])

/-! ### References to names that are not bound -/

/-- In a well-formed expression, a reference to a name that is not bound is to a
name of the place. -/
lemma unbound_of_mem_references (e : Expr) {p : ExprPlace} (hwf : e.WellFormed p)
    (hr : r ∈ (e.references scope l).all) (hunbound : ¬ r.IsBound) :
    r.name ∈ p.locals ∧ r.name ∉ scope.map Prod.fst := by
  induction e using ind generalizing p scope l with
  | num value => exact absurd hr List.not_mem_nil
  | ref name =>
      obtain rfl := List.mem_singleton.mp hr
      exact ⟨hwf, hunbound⟩
  | slot env index => exact absurd hr List.not_mem_nil
  | app func arg ih =>
      rcases mem_references_app.mp hr with rfl | hr
      · exact ⟨hwf.1, hunbound⟩
      · exact ih hwf.2 hr
  | closure func captured ih =>
      obtain ⟨c, hc, l', hr⟩ := exists_of_mem_referencesAll hr
      exact ih c hc (allWellFormed_iff.mp hwf.2.2 c hc) hr
  | letIn name bind e ihb ih =>
      rcases mem_references_letIn.mp hr with hr | hr
      · exact ihb hwf.1 hr
      · obtain ⟨hmem, hscope⟩ := ih (p := p.bind name) hwf.2 hr
        rw [List.map_cons, List.mem_cons, not_or] at hscope
        exact ⟨(List.mem_cons.mp hmem).resolve_left hscope.1, hscope.2⟩
  | missing => exact absurd hwf id

/-- A free name that is not bound around an expression is referred to without
being bound, if no environment can be read. -/
lemma exists_unbound (e : Expr) {p : ExprPlace} (hwf : e.WellFormed p) (henvs : p.envs = [])
    {x : Text} (hx : x ∈ e.free) (hscope : x ∉ scope.map Prod.fst) (l : Locals) :
    ∃ r ∈ (e.references scope l).all, ¬ r.IsBound ∧ r.name = x := by
  induction e using ind generalizing p scope l with
  | num value => exact absurd hx List.not_mem_nil
  | ref name =>
      rw [free_ref, List.mem_singleton] at hx
      subst hx
      exact ⟨⟨x, scope⟩, List.mem_singleton_self _, hscope, rfl⟩
  | slot env index =>
      obtain ⟨size, hmem, -⟩ := hwf
      exact absurd (henvs ▸ hmem) List.not_mem_nil
  | app func arg ih =>
      rcases mem_free_app.mp hx with rfl | hx
      · exact ⟨⟨x, scope⟩, mem_references_app.mpr (Or.inl rfl), hscope, rfl⟩
      · obtain ⟨r, hr, hunbound⟩ := ih hwf.2 henvs hx hscope l
        exact ⟨r, mem_references_app.mpr (Or.inr hr), hunbound⟩
  | closure func captured ih =>
      obtain ⟨c, hc, hx⟩ := mem_free_closure.mp hx
      obtain ⟨l', hsubset⟩ :
          ∃ l', (c.references scope l').all ⊆ (referencesAll scope l captured).all :=
        exists_subset_referencesAll hc l
      obtain ⟨r, hr, hunbound⟩ := ih c hc (allWellFormed_iff.mp hwf.2.2 c hc) henvs hx hscope l'
      exact ⟨r, hsubset hr, hunbound⟩
  | letIn name bind e ihb ih =>
      rcases mem_free_letIn.mp hx with hx | ⟨hx, hne⟩
      · obtain ⟨r, hr, hunbound⟩ := ihb hwf.1 henvs hx hscope (l.declare name).2
        exact ⟨r, mem_references_letIn.mpr (Or.inl hr), hunbound⟩
      · have hscope' : x ∉ List.map Prod.fst ((name, (l.declare name).1) :: scope) := by
          rw [List.map_cons, List.mem_cons, not_or]
          exact ⟨hne, hscope⟩
        obtain ⟨r, hr, hunbound⟩ := ih (p := p.bind name) hwf.2 henvs hx hscope'
          ((l.declare name).2.declareAll bind.binders).2
        exact ⟨r, mem_references_letIn.mpr (Or.inr hr), hunbound⟩
  | missing => exact absurd hwf id

end Expr

/-! ### References of a program -/

/-- The functions of a source file are those of the items of the program. -/
lemma Program.forall₂_toC {p : Program} {unit : CUnit} (h : p.toC = .ok unit) :
    List.Forall₂ (fun item f => item.toC (p.decls.map Decl.name) = .ok f) p unit := by
  obtain ⟨e, -, hmapM⟩ := Except.exists_of_bind_ok h
  exact Except.forall₂_of_mapM_ok hmapM

lemma Program.toC_of_mem_zip {p : Program} {unit : CUnit} (h : p.toC = .ok unit) {item : Item}
    {f : CItem} (hmem : (item, f) ∈ p.zip unit) :
    item.toC (p.decls.map Decl.name) = .ok f :=
  (List.forall₂_iff_zip.mp (forall₂_toC h)).2 hmem

/-- The references of a top-level item, in the order of the text of its
function. -/
def Item.references (globals : List Text) : Item → List Reference
  | decl d => (d.body.references [(d.arg, d.cArg globals)] (d.cLocals globals)).all
  | main e => (e.references [] (.empty globals)).all
  | missing => []

/-- Each reference of an item is one read of its function. -/
lemma Item.reads_toC {globals : List Text} {item : Item} {f : CItem}
    (h : item.toC globals = .ok f) :
    f.reads = (item.references globals).map Reference.identifier := by
  cases item with
  | decl d =>
      obtain ⟨body, l, hbody, rfl⟩ := isFunctionOf_of_toC h
      exact (d.body.reads_toC hbody).reads_eq
  | main e =>
      obtain ⟨⟨body, l⟩, hbody, h⟩ := Except.exists_of_bind_ok h
      cases h
      exact (e.reads_toC hbody).reads_eq
  | missing => exact absurd h (by simp [Item.toC])

end FlatClosure
