/-
Locals in generated C.

Source scopes are nested, and a name may be bound again below its own binder. In C
all locals of a function share one scope, and the statements that an expression
needs are moved in front of the expression that uses it.

* `CItem.uses`: what a function does with its variables, in the order of its text.
* `Expr.layout`: the same for an expression, where each binder has a number and each
  reference is resolved to its innermost binder.
* `Expr.usedBy_toC`: the uses of a translated expression are those of its layout.
* `Expr.count_layout`: in a layout, each binder is declared once and assigned once;
  `Expr.inOrder_layout`: it is declared before it is assigned and assigned before it
  is read.
* `Locals.Finds`: the search for an identifier, without a bound;
  `Locals.finds_declare`: it ends.
* `Program.toC_locals_wellFormed`: these facts, for every program that has a source
  file.
-/
import FlatClosure.Proofs.CReferences

namespace FlatClosure

/-! ### Uses of variables -/

/-- How a variable is brought about. -/
inductive CWrite where
  | declare
  | assign
  deriving DecidableEq

/-- What is done with a variable: it is declared or assigned, or something is read. -/
inductive CUse (α β : Type) where
  | write (w : CWrite) (v : α)
  | read (r : β)
  deriving DecidableEq

namespace CUse

variable {α β : Type}

/-- The declaration of a variable. -/
@[match_pattern] abbrev declare (v : α) : CUse α β := write .declare v

/-- The assignment of a variable. -/
@[match_pattern] abbrev assign (v : α) : CUse α β := write .assign v

end CUse

/-- What a statement does. A value is read before it is assigned. -/
def CStmt.uses : CStmt → List (CUse Text Text)
  | declare name => [.declare name]
  | assign name value => value.reads.map .read ++ [.assign name]

/-- What a body does, in the order of its text. -/
def CBody.uses (body : CBody) : List (CUse Text Text) :=
  body.stmts.flatMap CStmt.uses ++ body.value.reads.map .read

/-- What a function does, in the order of its text. -/
def CItem.uses : CItem → List (CUse Text Text)
  | function _ _ _ body | main body => body.uses

/-- The locals of a function. -/
def CItem.locals : CItem → List Text
  | function _ _ _ body | main body => body.locals

/-! ### Layout of an expression -/

/-- What a name refers to. -/
inductive Referent where
  /-- The binder with this number. -/
  | binder (index : Nat)
  /-- Nothing: the name is not bound. -/
  | unbound (name : Text)
  deriving DecidableEq

/-- The numbers of the binders around a place, the innermost first. -/
abbrev BinderScope := List (Text × Nat)

/-- What a name refers to at a place. -/
def BinderScope.resolve (scope : BinderScope) (name : Text) : Referent :=
  match scope.lookup name with
  | some index => .binder index
  | none => .unbound name

/-- A use of a variable, where each binder has a number. -/
abbrev LayoutUse := CUse Nat Referent

/-- Uses of variables: those in statements, and what is read after them. -/
structure Layout where
  stmts : List LayoutUse
  value : List Referent

/-- All uses, in the order of the text. -/
def Layout.uses (layout : Layout) : List LayoutUse := layout.stmts ++ layout.value.map .read

namespace Expr

mutual

/-- The uses of variables in an expression whose first binder gets the number
`next`. -/
def layout (scope : BinderScope) (next : Nat) : Expr → Layout
  | num _ | slot _ _ | missing => ⟨[], []⟩
  | ref name => ⟨[], [scope.resolve name]⟩
  | app func arg =>
    let argument := arg.layout scope next
    ⟨argument.stmts, scope.resolve func :: argument.value⟩
  | closure _ captured => layoutAll scope next captured
  | letIn name bind body =>
    let bound := bind.layout scope (next + 1)
    let rest := body.layout ((name, next) :: scope) (next + 1 + bind.binders.length)
    ⟨.declare next :: bound.uses ++ .assign next :: rest.stmts, rest.value⟩

/-- The uses of variables in expressions from left to right. -/
def layoutAll (scope : BinderScope) (next : Nat) : List Expr → Layout
  | [] => ⟨[], []⟩
  | e :: es =>
    let first := e.layout scope next
    let rest := layoutAll scope (next + e.binders.length) es
    ⟨first.stmts ++ rest.stmts, first.value ++ rest.value⟩

end

end Expr

namespace Item

/-- The names that the function of an item binds: its parameters, then its locals. -/
def binders : Item → List Text
  | decl d => d.env :: d.arg :: d.body.binders
  | main e => e.binders
  | missing => []

/-- The number of parameters of the function of an item. -/
def paramCount : Item → Nat
  | decl _ => 2
  | main _ | missing => 0

/-- The uses of variables in the function of an item. A name can refer to the
argument, but not to the environment. -/
def layout : Item → List LayoutUse
  | decl d => (d.body.layout [(d.arg, 1)] 2).uses
  | main e => (e.layout [] 0).uses
  | missing => []

end Item

/-! ### Translated expressions -/

/-- The identifier of what a name refers to, given those of all binders. -/
def Referent.identifier (identifiers : List Text) : Referent → Text
  | binder index => identifiers.getD index []
  | unbound name => name

/-- A use of a variable as it is written, given the identifiers of all binders. -/
def CUse.written (identifiers : List Text) : LayoutUse → CUse Text Text
  | write w index => write w (identifiers.getD index [])
  | read r => read (r.identifier identifiers)

/-- Whether statements, and the values after them, do what a layout says. -/
structure Layout.UsedBy (layout : Layout) (identifiers : List Text) (stmts : List CStmt)
    (values : List Text) : Prop where
  stmts_eq : stmts.flatMap CStmt.uses = layout.stmts.map (CUse.written identifiers)
  values_eq : values = layout.value.map (Referent.identifier identifiers)

lemma Layout.UsedBy.uses_eq {layout : Layout} {identifiers : List Text} {stmts : List CStmt}
    {values : List Text} (h : layout.UsedBy identifiers stmts values) :
    stmts.flatMap CStmt.uses ++ values.map .read =
      layout.uses.map (CUse.written identifiers) := by
  rw [h.stmts_eq, h.values_eq, Layout.uses, List.map_append, List.map_map, List.map_map]
  rfl

/-- The identifiers of the binders around a place. -/
def BinderScope.bindings (scope : BinderScope) (identifiers : List Text) : Bindings :=
  scope.map fun p => (p.1, identifiers.getD p.2 [])

/-- A name is read as the identifier of its innermost binder. -/
lemma BinderScope.identifier_resolve (scope : BinderScope) (identifiers : List Text)
    (name : Text) : (scope.bindings identifiers).identifier name =
      (scope.resolve name).identifier identifiers := by
  have hlook : (scope.bindings identifiers).lookup name =
      (scope.lookup name).map fun index => identifiers.getD index [] := by
    induction scope with
    | nil => rfl
    | cons p scope ih =>
        obtain ⟨x, index⟩ := p
        by_cases hx : name = x
        · simp [BinderScope.bindings, hx]
        · rw [lookup_cons_of_ne hx, ← ih]
          exact lookup_cons_of_ne hx
  rw [Bindings.identifier, hlook, resolve]
  cases scope.lookup name <;> rfl

lemma Locals.length_declareAll (l : Locals) (names : List Text) :
    (l.declareAll names).1.length = names.length := by
  induction names generalizing l with
  | nil => rfl
  | cons name names ih => rw [declareAll, List.length_cons, ih, List.length_cons]

namespace Expr

variable {envs : Bindings} {scope : BinderScope} {identifiers : List Text} {l l' : Locals}
  {body : CBody}

lemma usedBy_toCAll {es : List Expr} (before after : List Text)
    (hes : ∀ e ∈ es, ∀ before after l body l',
      e.toC envs (scope.bindings identifiers) l = .ok (body, l') →
      identifiers = before ++ (l.declareAll e.binders).1 ++ after →
      (e.layout scope before.length).UsedBy identifiers body.stmts body.value.reads)
    {stmts : List CStmt} {values : List CExpr}
    (h : toCAll envs (scope.bindings identifiers) l es = .ok (stmts, values, l'))
    (hids : identifiers = before ++ (l.declareAll (bindersAll es)).1 ++ after) :
    (layoutAll scope before.length es).UsedBy identifiers stmts (CExpr.readsAll values) := by
  induction es generalizing l stmts values before with
  | nil => cases h; exact ⟨rfl, rfl⟩
  | cons e es ih =>
      obtain ⟨first, l₁, stmts', values', hfirst, hrest, rfl, rfl⟩ := exists_of_toCAll_cons h
      have hlocals := e.declareAll_binders hfirst
      rw [bindersAll, Locals.declareAll_append, hlocals] at hids
      have hfirst' := hes e List.mem_cons_self before ((l₁.declareAll (bindersAll es)).1 ++ after)
        l first l₁ hfirst (by rw [hids, hlocals]; simp)
      have hrest' := ih (before ++ first.locals)
        (fun e' he' => hes e' (List.mem_cons_of_mem e he')) hrest (by rw [hids]; simp)
      have hlength : (before ++ first.locals).length = before.length + e.binders.length := by
        rw [List.length_append, ← l.length_declareAll e.binders, hlocals]
      rw [hlength] at hrest'
      refine ⟨?_, ?_⟩
      · rw [layoutAll, List.flatMap_append, hfirst'.stmts_eq, hrest'.stmts_eq, List.map_append]
      · rw [layoutAll, CExpr.readsAll, hfirst'.values_eq, hrest'.values_eq, List.map_append]

/-- **A translated expression uses variables as its layout says**, where the
identifiers of its binders stand at their numbers. -/
lemma usedBy_toC (e : Expr) (scope : BinderScope) (before after : List Text)
    (h : e.toC envs (scope.bindings identifiers) l = .ok (body, l'))
    (hids : identifiers = before ++ (l.declareAll e.binders).1 ++ after) :
    (e.layout scope before.length).UsedBy identifiers body.stmts body.value.reads := by
  induction e using ind generalizing scope l body l' before after with
  | num value => cases h; exact ⟨rfl, rfl⟩
  | ref name =>
      cases h
      exact ⟨rfl, congrArg ([·]) (scope.identifier_resolve identifiers name)⟩
  | slot env index =>
      obtain ⟨id, -, rfl, rfl⟩ := exists_of_toC_slot h
      exact ⟨rfl, rfl⟩
  | app func arg ih =>
      obtain ⟨argument, harg, rfl⟩ := exists_of_toC_app h
      obtain ⟨hstmts, hvalue⟩ := ih scope before after harg hids
      refine ⟨hstmts, ?_⟩
      rw [layout, List.map_cons, ← scope.identifier_resolve, ← hvalue]
      rfl
  | closure func captured ih =>
      obtain ⟨stmts, values, hall, rfl⟩ := exists_of_toC_closure h
      exact usedBy_toCAll before after (fun c hc b a _ _ _ => ih c hc scope b a) hall hids
  | letIn name bind e ihb ih =>
      obtain ⟨bound, l₁, rest, hbind, hrest, rfl⟩ := exists_of_toC_letIn h
      have hlocals := bind.declareAll_binders hbind
      rw [binders, Locals.declareAll, Locals.declareAll_append, hlocals] at hids
      set id := (l.declare name).1
      -- the identifier of the binder stands behind those before it
      have hget : identifiers.getD before.length [] = id := by rw [hids]; simp
      have hscope : (name, id) :: scope.bindings identifiers =
          BinderScope.bindings ((name, before.length) :: scope) identifiers := by rw [← hget]; rfl
      have hlength : (before ++ id :: bound.locals).length =
          before.length + 1 + bind.binders.length := by
        rw [← (l.declare name).2.length_declareAll bind.binders, hlocals, List.length_append,
          List.length_cons, Nat.add_right_comm, Nat.add_assoc]
      have hbound := ihb scope (before ++ [id]) ((l₁.declareAll e.binders).1 ++ after) hbind
        (by rw [hids, hlocals]; simp)
      have hrest' := ih ((name, before.length) :: scope) (before ++ id :: bound.locals) after
        (hscope ▸ hrest) (by rw [hids]; simp)
      rw [List.length_append, List.length_singleton] at hbound
      rw [hlength] at hrest'
      refine ⟨?_, hrest'.values_eq⟩
      have huses := hbound.uses_eq
      simp only [layout, List.flatMap_append, List.flatMap_cons, CStmt.uses, List.map_append,
        List.map_cons, CUse.written, hget, hrest'.stmts_eq, ← huses]
      simp
  | missing => exact absurd h (by simp [toC])

/-! ### Declarations and assignments of a layout -/

lemma count_map_read (w : CWrite) (index : Nat) (values : List Referent) :
    (values.map CUse.read).count (.write w index) = 0 := by
  refine List.count_eq_zero_of_not_mem fun hmem => ?_
  obtain ⟨v, -, heq⟩ := List.mem_map.mp hmem
  exact absurd heq (by simp)

lemma count_uses (w : CWrite) (index : Nat) (layout : Layout) :
    layout.uses.count (.write w index) = layout.stmts.count (.write w index) := by
  rw [Layout.uses, List.count_append, count_map_read, Nat.add_zero]

lemma count_layoutAll {w : CWrite} {es : List Expr} {index : Nat}
    (hes : ∀ e ∈ es, ∀ next, (e.layout scope next).stmts.count (.write w index) =
      if next ≤ index ∧ index < next + e.binders.length then 1 else 0) (next : Nat) :
    (layoutAll scope next es).stmts.count (.write w index) =
      if next ≤ index ∧ index < next + (bindersAll es).length then 1 else 0 := by
  induction es generalizing next with
  | nil => exact (if_neg fun h => absurd h.2 (Nat.not_lt.mpr h.1)).symm
  | cons e es ih =>
      rw [layoutAll, List.count_append, hes e List.mem_cons_self,
        ih fun e' he' => hes e' (List.mem_cons_of_mem e he'), bindersAll, List.length_append]
      split_ifs <;> omega

/-- **Each binder is declared once and assigned once.** -/
lemma count_layout (e : Expr) (scope : BinderScope) (next : Nat) (w : CWrite) (index : Nat) :
    (e.layout scope next).stmts.count (.write w index) =
      if next ≤ index ∧ index < next + e.binders.length then 1 else 0 := by
  induction e using ind generalizing scope next with
  | num value => exact (if_neg fun h => absurd h.2 (Nat.not_lt.mpr h.1)).symm
  | ref name => exact (if_neg fun h => absurd h.2 (Nat.not_lt.mpr h.1)).symm
  | slot env i => exact (if_neg fun h => absurd h.2 (Nat.not_lt.mpr h.1)).symm
  | app func arg ih => exact ih scope next
  | closure func captured ih => exact count_layoutAll (fun c hc => ih c hc scope) next
  | letIn name bind body ihb ih =>
      have hone : [CUse.declare next, .assign next].count (.write w index : LayoutUse) =
          if next = index then 1 else 0 := by
        cases w <;> simp [List.count_cons]
      have hlayout : ((letIn name bind body).layout scope next).stmts.count (.write w index) =
          [CUse.declare next, .assign next].count (.write w index : LayoutUse) +
          (bind.layout scope (next + 1)).stmts.count (.write w index) +
          (body.layout ((name, next) :: scope) (next + 1 + bind.binders.length)).stmts.count
            (.write w index) := by
        simp only [layout, List.cons_append, List.count_cons, List.count_append, count_uses,
          List.count_nil]
        omega
      rw [hlayout, hone, ihb, ih, binders, List.length_cons, List.length_append]
      split_ifs <;> omega
  | missing => exact (if_neg fun h => absurd h.2 (Nat.not_lt.mpr h.1)).symm

end Expr

/-! ### Order of uses -/

/-- Whether what a name refers to has a value after certain uses, where the first
`params` variables are parameters. -/
def Referent.Ready (params : Nat) (before : List LayoutUse) : Referent → Prop
  | binder index => index < params ∨ .assign index ∈ before
  | unbound _ => True

/-- Whether a use may come after certain others: what is assigned is declared, and
what is read has a value. -/
def CUse.InOrder (params : Nat) (before : List LayoutUse) : LayoutUse → Prop
  | declare _ => True
  | assign index => .declare index ∈ before
  | read r => r.Ready params before

/-- Whether each of the uses may come after those before it, of which `before` come
before the list. -/
def AllInOrder (params : Nat) (before : List LayoutUse) : List LayoutUse → Prop
  | [] => True
  | u :: us => u.InOrder params before ∧ AllInOrder params (before ++ [u]) us

section

variable {params : Nat} {before us us' : List LayoutUse}

lemma Referent.Ready.mono {r : Referent} (h : r.Ready params before) (hsub : before ⊆ us) :
    r.Ready params us := by
  cases r with
  | binder index => exact h.imp_right fun hmem => hsub hmem
  | unbound name => trivial

lemma allInOrder_append :
    AllInOrder params before (us ++ us') ↔
      AllInOrder params before us ∧ AllInOrder params (before ++ us) us' := by
  induction us generalizing before with
  | nil => simp [AllInOrder]
  | cons u us ih =>
      simp only [List.cons_append, AllInOrder, ih, List.append_assoc]
      exact and_assoc.symm

/-- Reads of what has a value may come at any place. -/
lemma allInOrder_map_read {values : List Referent} (h : ∀ v ∈ values, v.Ready params before) :
    AllInOrder params before (values.map .read) := by
  induction values generalizing before with
  | nil => trivial
  | cons v values ih =>
      obtain ⟨hv, hvalues⟩ := List.forall_mem_cons.mp h
      exact ⟨hv, ih fun w hw => (hvalues w hw).mono (List.subset_append_left _ _)⟩

/-- In an ordered list each use is in order after those at smaller positions. -/
lemma AllInOrder.inOrder {u : LayoutUse} {j : Nat} (h : AllInOrder params before us)
    (hj : us[j]? = some u) : u.InOrder params (before ++ us.take j) := by
  induction us generalizing before j with
  | nil => exact absurd hj (by simp)
  | cons u' us ih =>
      cases j with
      | zero =>
          obtain rfl : u' = u := by simpa using hj
          simpa using h.1
      | succ j =>
          have htail := ih h.2 (by simpa using hj)
          simpa using htail

/-- Whether all that is in scope has a value after certain uses. -/
def BinderScope.Ready (scope : BinderScope) (params : Nat) (before : List LayoutUse) : Prop :=
  ∀ p ∈ scope, (Referent.binder p.2).Ready params before

lemma BinderScope.Ready.mono {scope : BinderScope} (h : scope.Ready params before)
    (hsub : before ⊆ us) : scope.Ready params us :=
  fun p hp => (h p hp).mono hsub

/-- What a name refers to has a value, if it is in scope. -/
lemma BinderScope.Ready.resolve {scope : BinderScope} (h : scope.Ready params before)
    (name : Text) : (scope.resolve name).Ready params before := by
  rw [BinderScope.resolve]
  cases hlook : scope.lookup name with
  | none => trivial
  | some index =>
      exact h (name, index) (mem_of_lookup hlook)

/-- Whether the uses of a layout may come after certain others. The values need not
be read at once after the statements. -/
structure Layout.InOrder (layout : Layout) (params : Nat) (before : List LayoutUse) : Prop where
  stmts : AllInOrder params before layout.stmts
  value : ∀ v ∈ layout.value, v.Ready params (before ++ layout.stmts)

lemma Layout.InOrder.uses {layout : Layout} (h : layout.InOrder params before) :
    AllInOrder params before layout.uses :=
  allInOrder_append.mpr ⟨h.stmts, allInOrder_map_read h.value⟩

end

namespace Expr

variable {params : Nat} {scope : BinderScope}

lemma inOrder_layoutAll {es : List Expr} (before : List LayoutUse)
    (hes : ∀ e ∈ es, ∀ before, scope.Ready params before → ∀ next,
      (e.layout scope next).InOrder params before)
    (hscope : scope.Ready params before) (next : Nat) :
    (layoutAll scope next es).InOrder params before := by
  induction es generalizing next before with
  | nil => exact ⟨trivial, List.forall_mem_nil _⟩
  | cons e es ih =>
      have hfirst := hes e List.mem_cons_self before hscope next
      have hrest := ih (before ++ (e.layout scope next).stmts)
        (fun e' he' => hes e' (List.mem_cons_of_mem e he'))
        (hscope.mono (List.subset_append_left _ _)) (next + e.binders.length)
      refine ⟨allInOrder_append.mpr ⟨hfirst.stmts, hrest.stmts⟩, ?_⟩
      rw [layoutAll, ← List.append_assoc]
      refine List.forall_mem_append.mpr ⟨fun v hv => ?_, hrest.value⟩
      exact (hfirst.value v hv).mono (List.subset_append_left _ _)

/-- **In a layout, variables are declared before they are assigned and assigned
before they are read**, if what is in scope has a value. -/
lemma inOrder_layout (e : Expr) (before : List LayoutUse) (hscope : scope.Ready params before)
    (next : Nat) : (e.layout scope next).InOrder params before := by
  induction e using ind generalizing scope before next with
  | num value => exact ⟨trivial, List.forall_mem_nil _⟩
  | ref name =>
      refine ⟨trivial, List.forall_mem_singleton.mpr ?_⟩
      exact (hscope.resolve name).mono (List.subset_append_left _ _)
  | slot env index => exact ⟨trivial, List.forall_mem_nil _⟩
  | app func arg ih =>
      obtain ⟨hstmts, hvalue⟩ := ih before hscope next
      refine ⟨hstmts, List.forall_mem_cons.mpr ⟨?_, hvalue⟩⟩
      exact (hscope.resolve func).mono (List.subset_append_left _ _)
  | closure func captured ih =>
      exact inOrder_layoutAll before (fun c hc => ih c hc) hscope next
  | letIn name bind body ihb ih =>
      have hbound := ihb (before ++ [.declare next])
        (hscope.mono (List.subset_append_left _ _)) (next + 1)
      set bound := bind.layout scope (next + 1)
      set before' := before ++ [.declare next] ++ bound.uses ++ [.assign next]
      -- the assignment gives the bound name its value
      have hscope' : BinderScope.Ready ((name, next) :: scope) params before' := by
        refine List.forall_mem_cons.mpr ⟨Or.inr (by simp [before']), ?_⟩
        exact hscope.mono fun u hu => by simp [before', hu]
      have hrest := ih before' hscope' (next + 1 + bind.binders.length)
      refine ⟨⟨trivial, allInOrder_append.mpr ⟨hbound.uses, ?_, hrest.stmts⟩⟩, fun v hv => ?_⟩
      · exact List.mem_append_left _ (List.mem_append_right _ (List.mem_singleton_self _))
      · have hv' := hrest.value v hv
        simpa [before', layout] using hv'
  | missing => exact ⟨trivial, List.forall_mem_nil _⟩

end Expr

/-! ### Written uses -/

section

variable {identifiers : List Text} {params : Nat} {us : List LayoutUse} {w : CWrite} {i j : Nat}
  {x : Text} (hnodup : identifiers.Nodup)
  (hcount : ∀ w i, us.count (.write w i) = if params ≤ i ∧ i < identifiers.length then 1 else 0)
  (horder : AllInOrder params [] us)

include hcount

lemma lt_length_of_mem_uses (hmem : .write w i ∈ us) : params ≤ i ∧ i < identifiers.length := by
  by_contra hrange
  have hzero := hcount w i
  rw [if_neg hrange] at hzero
  exact List.count_eq_zero.mp hzero hmem

include hnodup in
/-- Each local is written once in each way. -/
lemma count_written (hx : x ∈ identifiers.drop params) (w : CWrite) :
    (us.map (CUse.written identifiers)).count (.write w x) = 1 := by
  obtain ⟨k, hk, rfl⟩ := List.getElem_of_mem hx
  rw [List.length_drop] at hk
  rw [List.getElem_drop, List.count_eq_countP, List.countP_map]
  have hone := hcount w (params + k)
  rw [if_pos ⟨by omega, by omega⟩, List.count_eq_countP] at hone
  rw [← hone]
  refine List.countP_congr fun u hu => ?_
  cases u with
  | read r => simp [CUse.written]
  | write w' i =>
      -- different binders have different identifiers
      have hi := (lt_length_of_mem_uses hcount hu).2
      have hget : identifiers.getD i [] = identifiers[i] := by simp [hi]
      rw [Function.comp_apply, CUse.written, hget]
      simp [hnodup.getElem_inj_iff]

include horder

omit hcount in
/-- A local is assigned after its declaration. -/
lemma declare_mem_take (hj : (us.map (CUse.written identifiers))[j]? = some (.assign x)) :
    .declare x ∈ (us.map (CUse.written identifiers)).take j := by
  rw [List.getElem?_map, Option.map_eq_some_iff] at hj
  obtain ⟨u, hu, hwritten⟩ := hj
  have hin := horder.inOrder hu
  cases u with
  | read r => exact absurd hwritten (by simp [CUse.written])
  | write w i =>
      obtain ⟨rfl, rfl⟩ := CUse.write.inj hwritten
      rw [← List.map_take]
      exact List.mem_map_of_mem hin

/-- A reference to a binder reads its identifier; if the binder is no parameter, it
has been assigned. -/
lemma exists_read_written (hparams : params ≤ identifiers.length)
    (hj : us[j]? = some (.read (.binder i))) :
    ∃ x, identifiers[i]? = some x ∧
      (us.map (CUse.written identifiers))[j]? = some (.read x) ∧
      (params ≤ i → .assign x ∈ (us.map (CUse.written identifiers)).take j) := by
  have hready : i < params ∨ .assign i ∈ us.take j := horder.inOrder hj
  have hi : i < identifiers.length := by
    rcases hready with hlt | hmem
    · omega
    · exact (lt_length_of_mem_uses hcount (List.mem_of_mem_take hmem)).2
  have hget : identifiers.getD i [] = identifiers[i] := by simp [hi]
  refine ⟨identifiers[i], List.getElem?_eq_getElem hi, ?_, fun hle => ?_⟩
  · rw [List.getElem?_map, hj, Option.map_some, CUse.written, Referent.identifier, hget]
  · have hmem := List.mem_map_of_mem (f := CUse.written identifiers)
      (hready.resolve_left (Nat.not_lt.mpr hle))
    rwa [CUse.written, hget, List.map_take] at hmem

end

/-! ### The search for an identifier -/

namespace Locals

/-- The search for an identifier, without a bound: as long as the candidate is taken,
the next suffix is tried. -/
inductive Finds (l : Locals) (name : Text) :
    (suffix : Nat) → (candidate : Text) → Text × Nat → Prop where
  | stop {suffix : Nat} {candidate : Text} (h : ¬ l.taken candidate) :
    Finds l name suffix candidate (candidate, suffix)
  | next {suffix : Nat} {candidate : Text} {found : Text × Nat} (h : l.taken candidate)
    (hnext : Finds l name (suffix + 1) (name ++ "_" ++ Text.ofNat (suffix + 1)) found) :
    Finds l name suffix candidate found

lemma finds_search {l : Locals} {name : Text} {tries suffix : Nat} {candidate : Text}
    (h : ¬ l.taken (l.search name tries suffix candidate).1) :
    l.Finds name suffix candidate (l.search name tries suffix candidate) := by
  induction tries generalizing suffix candidate with
  | zero => exact .stop h
  | succ tries ih =>
      rw [search] at h ⊢
      split_ifs at h ⊢ with htaken
      · exact .next htaken (ih h)
      · exact .stop htaken

/-- **The search ends**, with the identifier that is declared. -/
lemma finds_declare (l : Locals) (name : Text) :
    l.Finds name l.suffix name ((l.declare name).1, (l.declare name).2.suffix) := by
  obtain ⟨hdeclared, hreserved, hglobals⟩ := l.declare_notMem name
  have hfree : ¬ l.taken (l.declare name).1 := by
    simp [taken_iff, avoided, hdeclared, hreserved, hglobals]
  exact finds_search hfree

lemma grows_declareAll (l : Locals) (names : List Text) : l.Grows (l.declareAll names).2 := by
  induction names generalizing l with
  | nil => exact .refl l
  | cons name names ih => exact (l.grows_declare name).trans (ih _)

/-- The identifiers of a function are apart. -/
lemma apart_declareAll (globals names : List Text) :
    ((empty globals).declareAll names).1.Nodup ∧
    ∀ x ∈ ((empty globals).declareAll names).1, x ∉ reservedWords ∧ x ∉ globals := by
  have hgrows := (empty globals).grows_declareAll names
  have hapart := hgrows.apart (apart_empty globals)
  have hdeclared := (empty globals).declared_declareAll names
  rw [empty, List.append_nil, ← empty] at hdeclared
  refine ⟨List.nodup_reverse.mp (hdeclared ▸ hapart.nodup), fun x hx => ?_⟩
  have hx' : x ∈ ((empty globals).declareAll names).2.declared := by
    rw [hdeclared, List.mem_reverse]
    exact hx
  have hglobals := hapart.notMem_globals x hx'
  rw [hgrows.globals] at hglobals
  exact ⟨hapart.notMem_reservedWords x hx', hglobals⟩

end Locals

/-! ### Functions -/

/-- Whether a function has the parameters, the locals and the uses of an item. -/
structure Item.LaidOut (item : Item) (globals : List Text) (f : CItem) : Prop where
  variables_eq : f.variables = ((Locals.empty globals).declareAll item.binders).1
  locals_eq : f.locals = f.variables.drop item.paramCount
  uses_eq : f.uses = item.layout.map (CUse.written f.variables)

lemma Item.laidOut_toC {item : Item} {globals : List Text} {f : CItem}
    (h : item.toC globals = .ok f) : item.LaidOut globals f := by
  cases item with
  | decl d =>
      obtain ⟨body, l, hbody, rfl⟩ := isFunctionOf_of_toC h
      have hlocals := d.body.locals_toC hbody
      have hids : (CItem.function d.name (d.cEnv globals) (d.cArg globals) body).variables =
          [d.cEnv globals, d.cArg globals] ++
            ((d.cLocals globals).declareAll d.body.binders).1 ++ [] := by
        rw [CItem.variables, hlocals, List.append_nil]
        rfl
      have hused := d.body.usedBy_toC [(d.arg, 1)] _ _ hbody hids
      refine ⟨?_, rfl, hused.uses_eq⟩
      rw [CItem.variables, hlocals]
      rfl
  | main e =>
      obtain ⟨⟨body, l⟩, hbody, h⟩ := Except.exists_of_bind_ok h
      cases h
      have hlocals := e.locals_toC hbody
      have hids : (CItem.main body).variables =
          [] ++ ((Locals.empty globals).declareAll e.binders).1 ++ [] := by
        rw [CItem.variables, hlocals, List.append_nil, List.nil_append]
      have hused := e.usedBy_toC [] _ _ hbody hids
      exact ⟨hlocals, rfl, hused.uses_eq⟩
  | missing => exact absurd h (by simp [Item.toC])

namespace Item

/-- In the layout of an item, each local is declared once and assigned once. -/
lemma count_layout (item : Item) (w : CWrite) (i : Nat) :
    item.layout.count (.write w i) =
      if item.paramCount ≤ i ∧ i < item.binders.length then 1 else 0 := by
  cases item with
  | decl d =>
      rw [layout, Expr.count_uses, Expr.count_layout, paramCount, binders, List.length_cons,
        List.length_cons, Nat.add_comm 2]
  | main e => rw [layout, Expr.count_uses, Expr.count_layout, paramCount, binders, Nat.zero_add]
  | missing => rfl

/-- The layout of an item is in order. -/
lemma inOrder_layout (item : Item) : AllInOrder item.paramCount [] item.layout := by
  cases item with
  | decl d =>
      -- the argument has a value from the start
      have hscope : BinderScope.Ready [(d.arg, 1)] 2 [] :=
        List.forall_mem_singleton.mpr (Or.inl Nat.one_lt_two)
      exact (d.body.inOrder_layout [] hscope 2).uses
  | main e => exact (e.inOrder_layout [] (List.forall_mem_nil _) 0).uses
  | missing => trivial

lemma paramCount_le (item : Item) : item.paramCount ≤ item.binders.length := by
  cases item with
  | decl d => exact Nat.le_add_left 2 _
  | main e => exact Nat.zero_le _
  | missing => exact Nat.zero_le _

end Item

/-- Whether the variables of the function of an item are well formed: identifiers
that differ from each other, from reserved words and from functions, one for each
binder; every local declared once and then assigned once; and every reference to a
bound name a read of the identifier of its innermost binder, which has been assigned
before if it is a local. -/
structure CItem.LocalsWellFormed (f : CItem) (globals : List Text) (item : Item) : Prop
    extends item.LaidOut globals f where
  nodup : f.variables.Nodup
  notMem_reservedWords : ∀ x ∈ f.variables, x ∉ reservedWords
  notMem_globals : ∀ x ∈ f.variables, x ∉ globals
  written_once : ∀ x ∈ f.locals, ∀ w, f.uses.count (.write w x) = 1
  assigned_after : ∀ j x, f.uses[j]? = some (.assign x) → .declare x ∈ f.uses.take j
  read : ∀ j i, item.layout[j]? = some (.read (.binder i)) →
    ∃ x, f.variables[i]? = some x ∧ f.uses[j]? = some (.read x) ∧
      (item.paramCount ≤ i → .assign x ∈ f.uses.take j)

/-- **The variables of the function of an item are well formed.** -/
lemma Item.localsWellFormed_toC {item : Item} {globals : List Text} {f : CItem}
    (h : item.toC globals = .ok f) : f.LocalsWellFormed globals item := by
  have hlaid := laidOut_toC h
  obtain ⟨hnodup, hapart⟩ := Locals.apart_declareAll globals item.binders
  rw [← hlaid.variables_eq] at hnodup hapart
  have hlength : f.variables.length = item.binders.length := by
    rw [hlaid.variables_eq, Locals.length_declareAll]
  have hcount : ∀ w i, item.layout.count (.write w i) =
      if item.paramCount ≤ i ∧ i < f.variables.length then 1 else 0 := by
    intro w i
    rw [hlength, item.count_layout]
  refine ⟨hlaid, hnodup, fun x hx => (hapart x hx).1, fun x hx => (hapart x hx).2, ?_, ?_, ?_⟩
  · intro x hx w
    rw [hlaid.locals_eq] at hx
    rw [hlaid.uses_eq]
    exact count_written hnodup hcount hx w
  · intro j x
    rw [hlaid.uses_eq]
    exact declare_mem_take item.inOrder_layout
  · intro j i
    rw [hlaid.uses_eq]
    exact exists_read_written hcount item.inOrder_layout (hlength ▸ item.paramCount_le)

namespace Program

/-- **C locals are well formed.** Whatever a program looks like, if it has a source
file, the functions of the file are those of its items, one for each, and their
variables are well formed. The search for an identifier ends, from whatever
identifiers it starts. -/
theorem toC_locals_wellFormed {p : Program} {unit : CUnit} (h : p.toC = .ok unit) :
    List.Forall₂ (fun item f => f.LocalsWellFormed (p.decls.map Decl.name) item) p unit ∧
    ∀ (l : Locals) (name : Text),
      l.Finds name l.suffix name ((l.declare name).1, (l.declare name).2.suffix) := by
  exact ⟨(forall₂_toC h).imp fun _ _ hf => Item.localsWellFormed_toC hf, Locals.finds_declare⟩

/-- Both parameters have one name, which is bound again; a suffixed form is bound
itself, and so are a keyword and the name of a function. -/
theorem toC_locals_wellFormed_shadowed :
    let body : Expr := .letIn "x" (.ref "x") (.letIn "x_1" (.app "x" (.ref "x"))
      (.closure "f" [.letIn "int" (.num 1) (.ref "int"), .letIn "f" (.ref "x_1") (.ref "f")]))
    let p : Program := [.decl ⟨2, "f", "x", "x", body⟩, .main (.letIn "f" (.num 7) (.ref "f"))]
    ∃ unit, p.toC = .ok unit ∧
      unit.map CItem.variables = [["x", "x_1", "x_2", "x_1_3", "int_4", "f_5"], ["f_1"]].map
        (List.map Text.ofString) ∧
      List.Forall₂ (fun item f => f.LocalsWellFormed ["f"] item) p unit := by
  intro body p
  have hvariables : p.toC.map (List.map CItem.variables) =
      .ok ([["x", "x_1", "x_2", "x_1_3", "int_4", "f_5"], ["f_1"]].map
        (List.map Text.ofString)) := by
    unfold p body
    decide +kernel
  obtain ⟨unit, htoC, hvariables⟩ := Except.exists_of_map_ok hvariables
  exact ⟨unit, htoC, hvariables.symm, (toC_locals_wellFormed htoC).1⟩

end Program

end FlatClosure
