/-
Generated C computes what evaluation computes.

The statements of an expression come first, and its value is read after the
statements of other expressions have run. So a value has to denote the same
from the end of its own statements on.

* `Later`: a later state of the same function; identifiers that were declared
  keep what they hold, and the heap is extended.
* `Denotes`: in every later state, an expression points to a stored value.
* `FrameStored`: the identifiers of a frame hold its values.
* `Expr.toC_simulates`: where evaluation gives a value, the statements run and
  what they prepare denotes the value.
* `CallsMatch`: calls give what applications give; `callsMatch_call` is the
  induction on the number of nested applications.
-/
import FlatClosure.Proofs.CTranslation
import FlatClosure.Proofs.CSemantics
import FlatClosure.Proofs.Evaluation

namespace FlatClosure

/-! ### Locals -/

namespace CLocals

lemma eq_or_hides_of_hides_cons {locals : CLocals} {name x : Text} {var : CVar}
    (h : CLocals.hides ((name, var) :: locals) x) : x = name ∨ locals.hides x := by
  by_cases hx : x = name
  · exact Or.inl hx
  · right
    rwa [hides, lookup_cons_of_ne hx] at h

end CLocals

lemma CStmt.execAll_append (call : CCall) (visible : List Text) (s : CState)
    (stmts stmts' : List CStmt) :
    execAll call visible s (stmts ++ stmts') =
      (execAll call visible s stmts).bind fun s' => execAll call visible s' stmts' := by
  induction stmts generalizing s with
  | nil => rfl
  | cons stmt stmts ih =>
      simp only [List.cons_append, execAll, Option.bind_eq_bind, ih, Option.bind_assoc]

/-! ### States of a function -/

/-- Whether the locals of a state are among the identifiers declared so far,
which are apart from the functions that can be used. -/
structure CState.Fits (s : CState) (l : Locals) (visible : List Text) : Prop where
  apart : l.Apart
  visible_subset : visible ⊆ l.globals
  tracked : ∀ x, s.locals.hides x → x ∈ l.declared

/-- Whether `s'` is a later state than `s`, in which the identifiers of `l` were
declared. -/
structure Later (l : Locals) (s s' : CState) : Prop where
  agree : ∀ x ∈ l.declared, s'.locals.lookup x = s.locals.lookup x
  heap : s.heap.Extends s'.heap
  clear : ∀ x, s'.locals.hides x → x ∉ reservedWords ∧ x ∉ l.globals

section

variable {l l' : Locals} {s s' s'' : CState} {visible : List Text}

lemma CState.Fits.clear (h : s.Fits l visible) (x : Text) (hx : s.locals.hides x) :
    x ∉ reservedWords ∧ x ∉ l.globals :=
  ⟨h.apart.notMem_reservedWords x (h.tracked x hx), h.apart.notMem_globals x (h.tracked x hx)⟩

lemma CState.Fits.grow (h : s.Fits l visible) (hl : l.Grows l')
    (htracked : ∀ x, s'.locals.hides x → x ∈ l'.declared) : s'.Fits l' visible :=
  ⟨hl.apart h.apart, hl.globals ▸ h.visible_subset, htracked⟩

lemma Later.refl (h : s.Fits l visible) : Later l s s := ⟨fun _ _ => rfl, .refl _, h.clear⟩

lemma Later.trans (hl : l.Grows l') (h : Later l s s') (h' : Later l' s' s'') :
    Later l s s'' :=
  ⟨fun x hx => (h'.agree x (hl.declared hx)).trans (h.agree x hx), h.heap.trans h'.heap,
    hl.globals ▸ h'.clear⟩

/-- A state with an extended heap is a later one. -/
lemma Later.extend (h : Later l s s') {heap : Heap Text} (hheap : s'.heap.Extends heap) :
    Later l s ⟨s'.locals, heap⟩ :=
  ⟨h.agree, h.heap.trans hheap, h.clear⟩

lemma Later.pointer?_eq (h : Later l s s') {x : Text} (hx : x ∈ l.declared) :
    s'.locals.pointer? x = s.locals.pointer? x := by
  rw [CLocals.pointer?, h.agree x hx, CLocals.pointer?]

lemma Later.env?_eq (h : Later l s s') {x : Text} (hx : x ∈ l.declared) :
    s'.locals.env? x = s.locals.env? x := by
  rw [CLocals.env?, h.agree x hx, CLocals.env?]

lemma Later.not_hides (h : Later l s s') {x : Text} (hx : x ∈ reservedWords ∨ x ∈ l.globals) :
    s'.locals.hides x = false := by
  rw [Bool.eq_false_iff]
  intro hhides
  obtain ⟨hreserved, hglobals⟩ := h.clear x hhides
  exact hx.elim hreserved hglobals

end

/-! ### Stored frames -/

/-- The code of a declaration is named as the declaration. -/
def NamedCode (decls : List Decl) (d : Decl) (code : Text) : Prop := d ∈ decls ∧ d.name = code

/-- The identifiers of local names hold their values, and those of
environments the captured values. -/
structure FrameStored (decls : List Decl) (envs scope : Bindings) (l : Locals)
    (f : LocalFrame) (s : CState) : Prop where
  value : ∀ x v, f.locals.lookup x = some v → ∃ id a, scope.lookup x = some id ∧
    id ∈ l.declared ∧ s.locals.pointer? id = some a ∧ Stored (NamedCode decls) s.heap v a
  env : ∀ x values, f.envs.lookup x = some values → ∃ id array, envs.lookup x = some id ∧
    id ∈ l.declared ∧ s.locals.env? id = some array ∧
      StoredEnv (NamedCode decls) s.heap values array

section

variable {decls : List Decl} {envs scope : Bindings} {l l' : Locals} {f : LocalFrame}
  {s s' : CState}

lemma FrameStored.mono (h : FrameStored decls envs scope l f s) (hs : Later l s s')
    (hl : l.Grows l') : FrameStored decls envs scope l' f s' := by
  refine ⟨fun x v hv => ?_, fun x values hv => ?_⟩
  · obtain ⟨id, a, hid, hmem, ha, hstored⟩ := h.value x v hv
    exact ⟨id, a, hid, hl.declared hmem, (hs.pointer?_eq hmem).trans ha, hstored.mono hs.heap⟩
  · obtain ⟨id, array, hid, hmem, harray, hstored⟩ := h.env x values hv
    exact ⟨id, array, hid, hl.declared hmem, (hs.env?_eq hmem).trans harray,
      hstored.mono hs.heap⟩

/-- A frame is stored below a binder if the new identifier holds the bound
value. -/
lemma FrameStored.bind (h : FrameStored decls envs scope l f s) (name : Text) {id : Text}
    {v : Value} {a : Address} (hmem : id ∈ l.declared) (ha : s.locals.pointer? id = some a)
    (hstored : Stored (NamedCode decls) s.heap v a) :
    FrameStored decls envs ((name, id) :: scope) l (f.bind name v) s := by
  refine ⟨fun x w hw => ?_, h.env⟩
  rw [LocalFrame.bind] at hw
  by_cases hx : x = name
  · rw [hx, List.lookup_cons_self] at hw
    cases hw
    exact ⟨id, a, by rw [hx, List.lookup_cons_self], hmem, ha, hstored⟩
  · rw [lookup_cons_of_ne hx] at hw ⊢
    exact h.value x w hw

end

/-! ### Expressions -/

/-- Calls through closures give what applications give. -/
def CallsMatch (decls : List Decl) (apply : Value → Value → Counted Value) (call : CCall) :
    Prop :=
  ∀ ⦃callee argument v : Value⦄ ⦃target a : Address⦄ ⦃h : Heap Text⦄,
    (apply callee argument).outcome = .ok v → Stored (NamedCode decls) h callee target →
    Stored (NamedCode decls) h argument a →
    ∃ b h', h.callClosure call target a = some (b, h') ∧ h.Extends h' ∧
      Stored (NamedCode decls) h' v b

section

variable (decls : List Decl) (call : CCall) (visible : List Text)

/-- In every state later than `s`, the expression points to the value. -/
def Denotes (l : Locals) (s : CState) (e : CExpr) (v : Value) : Prop :=
  ∀ s', Later l s s' → ∃ a h, e.eval call visible s'.locals s'.heap = some (a, h) ∧
    s'.heap.Extends h ∧ Stored (NamedCode decls) h v a

/-- In every state later than `s`, the expressions point to the values. -/
def DenoteAll (l : Locals) (s : CState) (es : List CExpr) (values : List Value) : Prop :=
  ∀ s', Later l s s' → ∃ addresses h,
    CExpr.evalAll call visible s'.locals es s'.heap = some (addresses, h) ∧
    s'.heap.Extends h ∧ List.Forall₂ (Stored (NamedCode decls) h) values addresses

variable {decls call visible} {apply : Value → Value → Counted Value} {l l' : Locals}
  {s s' : CState} {v : Value}

lemma denotes_int (value : Int64) :
    Denotes decls call visible l s (.int value) (.int value.toInt32) := by
  intro s' hs
  refine ⟨_, _, ?_, s'.heap.extends_newRecord _, stored_buildInt s'.heap value.toInt32⟩
  have hclear := hs.not_hides (x := "build_int") (Or.inl (by decide))
  rw [CExpr.eval, hclear]
  rfl

lemma denotes_read {id : Text} {a : Address} (hmem : id ∈ l.declared)
    (ha : s.locals.pointer? id = some a) (hstored : Stored (NamedCode decls) s.heap v a) :
    Denotes decls call visible l s (.read id) v := by
  intro s' hs
  refine ⟨a, s'.heap, ?_, .refl _, hstored.mono hs.heap⟩
  rw [CExpr.eval, hs.pointer?_eq hmem, ha]
  rfl

lemma denotes_slot {id : Text} {array : Option Address} {values : List Value} {i : Nat}
    (hmem : id ∈ l.declared) (harray : s.locals.env? id = some array)
    (hstored : StoredEnv (NamedCode decls) s.heap values array) (hv : values[i]? = some v) :
    Denotes decls call visible l s (.slot id i) v := by
  intro s' hs
  obtain ⟨a, ha, hstored'⟩ := hstored.mono hs.heap i v hv
  refine ⟨a, s'.heap, ?_, .refl _, hstored'⟩
  simp [CExpr.eval, hs.env?_eq hmem, harray, ha]

lemma denotes_call (hcall : CallsMatch decls apply call) {id : Text} {target : Address}
    {callee argument : Value} {e : CExpr} (hmem : id ∈ l.declared)
    (htarget : s.locals.pointer? id = some target)
    (hcallee : Stored (NamedCode decls) s.heap callee target)
    (harg : Denotes decls call visible l s e argument)
    (hv : (apply callee argument).outcome = .ok v) :
    Denotes decls call visible l s (.call id e) v := by
  intro s' hs
  obtain ⟨a, h, heval, hext, hstored⟩ := harg s' hs
  obtain ⟨b, h', hcalled, hext', hstored'⟩ :=
    hcall hv (hcallee.mono (hs.heap.trans hext)) hstored
  refine ⟨b, h', ?_, hext.trans hext', hstored'⟩
  simp [CExpr.eval, hs.pointer?_eq hmem, htarget, heval, hcalled]

/-- The heap copy of the addresses of values stores the values. -/
lemma storedEnv_copyCaptured {h : Heap Text} {values : List Value} {addresses : List Address}
    (hstored : List.Forall₂ (Stored (NamedCode decls) h) values addresses) :
    h.Extends (h.copyCaptured addresses).2 ∧
      StoredEnv (NamedCode decls) (h.copyCaptured addresses).2 values
        (h.copyCaptured addresses).1 := by
  cases addresses with
  | nil =>
      rw [List.forall₂_nil_right_iff.mp hstored]
      exact ⟨.refl h, storedEnv_nil none⟩
  | cons a addresses =>
      have hext := h.extends_newArray ((a :: addresses).map some)
      exact ⟨hext, storedEnv_of_array (h.arrays_newArray _)
        (hstored.imp fun v b hb => hb.mono hext)⟩

lemma denotes_closure (hsub : visible ⊆ l.globals) {d : Decl} {func : Text}
    {es : List CExpr} {values : List Value} (hd : NamedCode decls d func)
    (hvisible : func ∈ visible) (hall : DenoteAll decls call visible l s es values) :
    Denotes decls call visible l s (.closure func es) (.closure d values) := by
  intro s' hs
  obtain ⟨addresses, h, heval, hext, hstored⟩ := hall s' hs
  obtain ⟨hcopy, henv⟩ := storedEnv_copyCaptured hstored
  have hclear : (func :: closureSupport).any s'.locals.hides = false := by
    refine List.any_eq_false.mpr fun x hx => ?_
    have hword : x ∈ reservedWords ∨ x ∈ l.globals := by
      rcases List.mem_cons.mp hx with rfl | hx
      · exact Or.inr (hsub hvisible)
      · exact Or.inl ((by decide : closureSupport ⊆ reservedWords) hx)
    simp [hs.not_hides hword]
  have hbuilt : (CExpr.closure func es).eval call visible s'.locals s'.heap =
      some ((h.copyCaptured addresses).2.buildClosure func (h.copyCaptured addresses).1) := by
    simp [CExpr.eval, hclear, hvisible, heval]
  exact ⟨_, _, hbuilt, hext.trans (hcopy.trans (Heap.extends_newRecord _ _)),
    stored_buildClosure hd henv⟩

lemma denoteAll_nil : DenoteAll decls call visible l s [] [] :=
  fun s' _ => ⟨[], s'.heap, rfl, .refl _, .nil⟩

/-- The first expression still points to its value after the statements of the
others. -/
lemma denoteAll_cons {e : CExpr} {es : List CExpr} {values : List Value} (hl : l.Grows l')
    (hs : Later l s s') (hfirst : Denotes decls call visible l s e v)
    (hrest : DenoteAll decls call visible l' s' es values) :
    DenoteAll decls call visible l' s' (e :: es) (v :: values) := by
  intro s'' hs''
  obtain ⟨a, h, heval, hext, hstored⟩ := hfirst s'' (hs.trans hl hs'')
  obtain ⟨addresses, h', hevalAll, hext', hstoredAll⟩ := hrest _ (hs''.extend hext)
  refine ⟨a :: addresses, h', ?_, hext.trans hext', .cons (hstored.mono hext') hstoredAll⟩
  simp [CExpr.evalAll, heval, hevalAll]

end

/-! ### Statements -/

section

variable {decls : List Decl} {call : CCall} {visible : List Text}
  {apply : Value → Value → Counted Value} {l l' : Locals} {s s' : CState} {v : Value}

/-- A declaration runs, since its identifier is new. -/
lemma exists_exec_declare (call : CCall) (hs : s.Fits l visible) (name : Text) :
    ∃ s', (CStmt.declare (l.declare name).1).exec call visible s = some s' ∧ Later l s s' ∧
      s'.Fits (l.declare name).2 visible ∧
      s'.locals.lookup (l.declare name).1 = some (.pointer none) := by
  obtain ⟨hdeclared, hreserved, hglobals⟩ := l.declare_notMem name
  have hnew : s.locals.hides (l.declare name).1 = false := by
    rw [Bool.eq_false_iff]
    exact fun h => hdeclared (hs.tracked _ h)
  refine ⟨⟨((l.declare name).1, .pointer none) :: s.locals, s.heap⟩, ?_, ⟨?_, .refl _, ?_⟩,
    hs.grow (l.grows_declare name) ?_, List.lookup_cons_self⟩
  · simp [CStmt.exec, CLocals.declare, hnew]
  · intro x hx
    exact lookup_cons_of_ne fun heq => hdeclared (heq ▸ hx)
  · intro x hx
    rcases CLocals.eq_or_hides_of_hides_cons hx with rfl | hx
    · exact ⟨hreserved, hglobals⟩
    · exact hs.clear x hx
  · intro x hx
    rw [Locals.declared_declare]
    rcases CLocals.eq_or_hides_of_hides_cons hx with rfl | hx
    · exact List.mem_cons_self
    · exact List.mem_cons_of_mem _ (hs.tracked x hx)

/-- An assignment to a declared identifier runs, and changes what no earlier
identifier holds. -/
lemma exists_exec_assign {id : Text} {target : Option Address} {e : CExpr}
    (hs : s.Fits l visible) (hid : s.locals.lookup id = some (.pointer target))
    (he : Denotes decls call visible l s e v) :
    ∃ s' a, (CStmt.assign id e).exec call visible s = some s' ∧ s'.Fits l visible ∧
      s'.locals.pointer? id = some a ∧ Stored (NamedCode decls) s'.heap v a ∧
      ∀ l₀ s₀, Later l₀ s₀ s → id ∉ l₀.declared → Later l₀ s₀ s' := by
  obtain ⟨a, h, heval, hext, hstored⟩ := he s (.refl hs)
  have hhides : ∀ x, CLocals.hides ((id, .pointer (some a)) :: s.locals) x → s.locals.hides x := by
    intro x hx
    rcases CLocals.eq_or_hides_of_hides_cons hx with rfl | hx
    · rw [CLocals.hides, hid]
      rfl
    · exact hx
  refine ⟨⟨(id, .pointer (some a)) :: s.locals, h⟩, a, ?_,
    ⟨hs.apart, hs.visible_subset, fun x hx => hs.tracked x (hhides x hx)⟩, ?_, hstored, ?_⟩
  · simp [CStmt.exec, heval, CLocals.assign, hid]
  · rw [CLocals.pointer?, List.lookup_cons_self]
  · intro l₀ s₀ h₀ hnot
    refine ⟨fun x hx => ?_, h₀.heap.trans hext, fun x hx => h₀.clear x (hhides x hx)⟩
    have hne : x ≠ id := fun heq => hnot (heq ▸ hx)
    rw [lookup_cons_of_ne hne]
    exact h₀.agree x hx

variable {envs scope : Bindings} {f : LocalFrame}

/-- The statements run from `s`, and what holds of the state after them. -/
def RunsTo (call : CCall) (visible : List Text) (l l' : Locals) (s : CState)
    (stmts : List CStmt) (P : CState → Prop) : Prop :=
  ∃ s', CStmt.execAll call visible s stmts = some s' ∧ Later l s s' ∧ s'.Fits l' visible ∧ P s'

/-- What translation has to achieve for an expression. -/
def Expr.Simulates (decls : List Decl) (apply : Value → Value → Counted Value) (call : CCall)
    (visible : List Text) (envs : Bindings) (e : Expr) : Prop :=
  ∀ ⦃scope l body l' f s v⦄, e.toC envs scope l = .ok (body, l') → s.Fits l visible →
    FrameStored decls envs scope l f s → (e.eval decls apply f).outcome = .ok v →
    RunsTo call visible l l' s body.stmts
      fun s' => Denotes decls call visible l' s' body.value v

/-- The statements of captured expressions run one after the other. -/
lemma Expr.toCAll_simulates {es : List Expr}
    (hes : ∀ e ∈ es, e.Simulates decls apply call visible envs) {stmts : List CStmt}
    {cexprs : List CExpr} {values : List Value}
    (htoC : toCAll envs scope l es = .ok (stmts, cexprs, l')) (hs : s.Fits l visible)
    (hf : FrameStored decls envs scope l f s)
    (heval : (evalAll decls apply f es).outcome = .ok values) :
    RunsTo call visible l l' s stmts
      fun s' => DenoteAll decls call visible l' s' cexprs values := by
  induction es generalizing l s stmts cexprs values with
  | nil =>
      cases htoC
      cases heval
      exact ⟨s, rfl, .refl hs, hs, denoteAll_nil⟩
  | cons e es ih =>
      obtain ⟨first, l₁, stmts', cexprs', hfirst, hrest, rfl, rfl⟩ := exists_of_toCAll_cons htoC
      obtain ⟨value, values', hvalue, hvalues, rfl⟩ := exists_of_evalAll_cons heval
      have hgrow := grows_toC e hfirst
      obtain ⟨s₁, hexec₁, hlater₁, hfits₁, hden₁⟩ :=
        hes e List.mem_cons_self hfirst hs hf hvalue
      obtain ⟨s₂, hexec₂, hlater₂, hfits₂, hden₂⟩ :=
        ih (fun e' he' => hes e' (List.mem_cons_of_mem e he')) hrest hfits₁
          (hf.mono hlater₁ hgrow) hvalues
      refine ⟨s₂, ?_, hlater₁.trans hgrow hlater₂, hfits₂, ?_⟩
      · rw [CStmt.execAll_append, hexec₁]
        exact hexec₂
      · exact denoteAll_cons (grows_toCAll hrest) hlater₂ hden₁ hden₂

/-- **Translated expressions compute what evaluation computes**: where an
expression has a value, its statements run, and in every later state what they
prepare points to the value. -/
theorem Expr.toC_simulates (hcall : CallsMatch decls apply call) (e : Expr) {p : ExprPlace}
    (hwf : e.WellFormed p) (hvisible : ∀ d ∈ p.decls, d.name ∈ visible) :
    e.Simulates decls apply call visible envs := by
  induction e using ind generalizing p with
  | num value =>
      intro scope l body l' f s v htoC hs hf heval
      cases htoC
      cases heval
      exact ⟨s, rfl, .refl hs, hs, denotes_int value⟩
  | ref name =>
      intro scope l body l' f s v htoC hs hf heval
      cases htoC
      obtain ⟨id, a, hid, hmem, ha, hstored⟩ := hf.value name v (lookup_of_eval_ref heval)
      refine ⟨s, rfl, .refl hs, hs, ?_⟩
      dsimp only
      rw [Bindings.identifier, hid, Option.getD_some]
      exact denotes_read hmem ha hstored
  | slot env index =>
      intro scope l body l' f s v htoC hs hf heval
      obtain ⟨id, hid, rfl, rfl⟩ := exists_of_toC_slot htoC
      obtain ⟨values, hvalues, i, rfl, hv⟩ := exists_of_eval_slot heval
      obtain ⟨id', array, hid', hmem, harray, hstored⟩ := hf.env env values hvalues
      cases hid.symm.trans hid'
      exact ⟨s, rfl, .refl hs, hs, denotes_slot hmem harray hstored hv⟩
  | app func arg ih =>
      intro scope l body l' f s v htoC hs hf heval
      obtain ⟨argument, harg, rfl⟩ := exists_of_toC_app htoC
      obtain ⟨callee, value, hcallee, hvalue, hv⟩ := exists_of_eval_app heval
      obtain ⟨s', hexec, hlater, hfits, hden⟩ := ih hwf.2 hvisible harg hs hf hvalue
      -- the callee is read after the statements of the argument
      obtain ⟨id, a, hid, hmem, ha, hstored⟩ :=
        (hf.mono hlater (grows_toC arg harg)).value func callee hcallee
      refine ⟨s', hexec, hlater, hfits, ?_⟩
      rw [Bindings.identifier, hid, Option.getD_some]
      exact denotes_call hcall hmem ha hstored hden hv
  | closure func captured ih =>
      intro scope l body l' f s v htoC hs hf heval
      obtain ⟨stmts, cexprs, hall, rfl⟩ := exists_of_toC_closure htoC
      obtain ⟨d, values, hfind, hvalues, rfl⟩ := exists_of_eval_closure heval
      obtain ⟨⟨d', hd', rfl, -⟩, -, hwfAll⟩ := hwf
      obtain ⟨s', hexec, hlater, hfits, hden⟩ := toCAll_simulates
        (fun c hc => ih c hc (allWellFormed_iff.mp hwfAll c hc) hvisible) hall hs hf hvalues
      exact ⟨s', hexec, hlater, hfits, denotes_closure hfits.visible_subset
        (mem_of_findDecl? hfind) (hvisible d' hd') hden⟩
  | letIn name bind e ihb ih =>
      intro scope l body l' f s v htoC hs hf heval
      obtain ⟨bound, l₁, rest, hbind, hrest, rfl⟩ := exists_of_toC_letIn htoC
      obtain ⟨value, hvalue, hv⟩ := exists_of_eval_letIn heval
      obtain ⟨hnew, -, -⟩ := l.declare_notMem name
      have hgrow := l.grows_declare name
      have hgrow₁ := hgrow.trans (grows_toC bind hbind)
      obtain ⟨s₁, hexec₁, hlater₁, hfits₁, hid₁⟩ := exists_exec_declare call hs name
      obtain ⟨s₂, hexec₂, hlater₂, hfits₂, hden₂⟩ :=
        ihb hwf.1 hvisible hbind hfits₁ (hf.mono hlater₁ hgrow) hvalue
      have hmem : (l.declare name).1 ∈ (l.declare name).2.declared := by
        rw [Locals.declared_declare]
        exact List.mem_cons_self
      have hid₂ : s₂.locals.lookup (l.declare name).1 = some (.pointer none) :=
        (hlater₂.agree _ hmem).trans hid₁
      obtain ⟨s₃, a, hexec₃, hfits₃, ha, hstored, hkeep⟩ := exists_exec_assign hfits₂ hid₂ hden₂
      -- the identifier is new, so the assignment leaves the frame as it was
      have hlater₃ : Later l s s₃ := hkeep l s (hlater₁.trans hgrow hlater₂) hnew
      have hf₃ := (hf.mono hlater₃ hgrow₁).bind name
        ((grows_toC bind hbind).declared hmem) ha hstored
      obtain ⟨s₄, hexec₄, hlater₄, hfits₄, hden₄⟩ :=
        ih (p := p.bind name) hwf.2 hvisible hrest hfits₃ hf₃ hv
      refine ⟨s₄, ?_, hlater₃.trans hgrow₁ hlater₄, hfits₄, hden₄⟩
      simp [CStmt.execAll, CStmt.execAll_append, hexec₁, hexec₂, hexec₃, hexec₄]
  | missing => exact absurd hwf id

/-- A body runs and prepares the value of its expression. -/
lemma exists_run (hcall : CallsMatch decls apply call) {e : Expr} {p : ExprPlace}
    (hwf : e.WellFormed p) (hvisible : ∀ d ∈ p.decls, d.name ∈ visible) {body : CBody}
    (htoC : e.toC envs scope l = .ok (body, l')) (hs : s.Fits l visible)
    (hf : FrameStored decls envs scope l f s) (heval : (e.eval decls apply f).outcome = .ok v) :
    ∃ a s', body.run call visible s = some (a, s') ∧ s.heap.Extends s'.heap ∧
      s'.Fits l' visible ∧ Stored (NamedCode decls) s'.heap v a := by
  obtain ⟨s', hexec, hlater, hfits, hden⟩ :=
    e.toC_simulates hcall hwf hvisible htoC hs hf heval
  obtain ⟨a, h, hvalue, hext, hstored⟩ := hden s' (.refl hfits)
  refine ⟨a, ⟨s'.locals, h⟩, ?_, hlater.heap.trans hext,
    ⟨hfits.apart, hfits.visible_subset, hfits.tracked⟩, hstored⟩
  simp [CBody.run, hexec, hvalue]

end

/-! ### Functions -/

namespace Decl

variable (globals : List Text) (d : Decl)

/-- Whether a function is the translation of a declaration, where the functions
that the declaration uses can be used. -/
structure ImplementedBy (f : CFunction) : Prop where
  env_eq : f.env = d.cEnv globals
  arg_eq : f.arg = d.cArg globals
  toC_body : ∃ l, d.body.toC [(d.env, f.env)] [(d.arg, f.arg)] (d.cLocals globals) =
    .ok (f.body, l)
  wellFormed : ∃ earlier, d.body.WellFormed (d.place earlier) ∧
    ∀ d' ∈ earlier, d'.name ∈ f.visible
  visible_subset : f.visible ⊆ globals

/-- The locals of a function that is called. -/
def calledLocals (env : Option Address) (a : Address) : CLocals :=
  [(d.cArg globals, .pointer (some a)), (d.cEnv globals, .env env)]

variable {globals d}

/-- The state in which a function starts. -/
lemma ImplementedBy.fits {f : CFunction} (hf : d.ImplementedBy globals f)
    (env : Option Address) (a : Address) (h : Heap Text) :
    CState.Fits ⟨d.calledLocals globals env a, h⟩ (d.cLocals globals) f.visible := by
  have hgrow := d.grows_cLocals globals
  refine ⟨hgrow.apart (Locals.apart_empty globals), ?_, fun x hx => ?_⟩
  · rw [hgrow.globals]
    exact hf.visible_subset
  · rw [declared_cLocals, List.mem_cons, List.mem_singleton]
    rcases CLocals.eq_or_hides_of_hides_cons hx with rfl | hx
    · exact Or.inl rfl
    · rcases CLocals.eq_or_hides_of_hides_cons hx with rfl | hx
      · exact Or.inr rfl
      · exact absurd hx (by simp [CLocals.hides])

/-- A call runs the body of the function over its two parameters. -/
lemma ImplementedBy.call_eq {f : CFunction} (hf : d.ImplementedBy globals f) {unit : CUnit}
    (hfunction : unit.function? [] d.name = some f) (fuel : Nat) (env : Option Address)
    (a : Address) (h : Heap Text) :
    unit.call (fuel + 1) d.name env a h =
      (f.body.run (unit.call fuel) f.visible ⟨d.calledLocals globals env a, h⟩).map
        fun r => (r.1, r.2.heap) := by
  have hnil : CLocals.hides [] (d.cEnv globals) = false := rfl
  have harg : CLocals.hides [(d.cEnv globals, .env env)] (d.cArg globals) = false := by
    rw [CLocals.hides, lookup_cons_of_ne (d.cArg_ne_cEnv globals)]
    rfl
  simp only [CUnit.call, hfunction, CLocals.declare, hf.env_eq, hf.arg_eq, hnil, harg,
    Option.bind_eq_bind, Option.bind_some, Bool.false_eq_true, if_false]
  rw [Option.map_eq_bind]
  rfl

/-- The frame in which the body of a function is evaluated. -/
lemma frameStored_called {decls : List Decl} {argument : Value} {values : List Value}
    {env : Option Address} {a : Address} {h : Heap Text}
    (ha : Stored (NamedCode decls) h argument a)
    (henv : StoredEnv (NamedCode decls) h values env) :
    FrameStored decls [(d.env, d.cEnv globals)] [(d.arg, d.cArg globals)] (d.cLocals globals)
      ⟨[(d.arg, argument)], [(d.env, values)]⟩ ⟨d.calledLocals globals env a, h⟩ := by
  refine ⟨fun x v hv => ?_, fun x vs hv => ?_⟩
  · obtain ⟨rfl, rfl⟩ := eq_of_lookup_singleton hv
    refine ⟨d.cArg globals, a, List.lookup_cons_self, ?_, ?_, ha⟩
    · rw [declared_cLocals]
      exact List.mem_cons_self
    · rw [CLocals.pointer?, calledLocals, List.lookup_cons_self]
  · obtain ⟨rfl, rfl⟩ := eq_of_lookup_singleton hv
    refine ⟨d.cEnv globals, env, List.lookup_cons_self, ?_, ?_, henv⟩
    · rw [declared_cLocals]
      exact List.mem_cons_of_mem _ List.mem_cons_self
    · rw [CLocals.env?, calledLocals,
        lookup_cons_of_ne (d.cArg_ne_cEnv globals).symm, List.lookup_cons_self]

end Decl

/-- **Calls give what applications give**, if every declaration is implemented
by the function of its name: by induction on how many applications may be
nested. -/
theorem callsMatch_call {unit : CUnit} {decls : List Decl}
    (hunit : ∀ d ∈ decls, ∃ f, unit.function? [] d.name = some f ∧
      d.ImplementedBy (decls.map Decl.name) f) (limit : Int) {left fuel : Nat}
    (hfuel : left ≤ fuel) : CallsMatch decls (Value.apply decls limit left) (unit.call fuel) := by
  induction left generalizing fuel with
  | zero =>
      intro callee argument v target a h hv hcallee harg
      obtain ⟨d, values, k, -, hk, -⟩ := Value.exists_of_apply hv
      exact absurd hk (by omega)
  | succ left ih =>
      intro callee argument v target a h hv hcallee harg
      obtain ⟨d, values, k, rfl, hk, heval⟩ := Value.exists_of_apply hv
      obtain rfl : left = k := by omega
      obtain ⟨fuel, rfl⟩ : ∃ m, fuel = m + 1 := ⟨fuel - 1, by omega⟩
      obtain ⟨code, env, hrecord, ⟨hd, rfl⟩, henv⟩ := stored_closure_iff.mp hcallee
      obtain ⟨f, hfunction, hf⟩ := hunit d hd
      obtain ⟨l, htoC⟩ := hf.toC_body
      obtain ⟨earlier, hwf, hvisible⟩ := hf.wellFormed
      rw [hf.env_eq, hf.arg_eq] at htoC
      obtain ⟨b, s, hrun, hext, -, hstored⟩ := exists_run
        (ih (Nat.le_of_succ_le_succ hfuel)) hwf hvisible htoC (hf.fits env a h)
        (Decl.frameStored_called harg henv) heval
      refine ⟨b, s.heap, ?_, hext, hstored⟩
      rw [Heap.callClosure, hrecord]
      exact (hf.call_eq hfunction fuel env a h).trans (by rw [hrun]; rfl)

end FlatClosure
