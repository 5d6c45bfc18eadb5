/-
Translation to C.

A newly bound name gets the first identifier that is not taken among the name
itself and its suffixed forms.

* `Locals.numbered`: the candidates in the order in which they are tried.
* `Locals.search_eq`: the search stops at the first candidate that is not
  taken, or at the last one.
* `Locals.declare_notMem`: the identifier that is picked is not taken, because
  there are more candidates than identifiers to avoid.
* `Locals.Apart`, `Locals.Grows`: identifiers stay apart from reserved words
  and functions, and are only added.
* `Expr.exists_of_toC_slot` and its companions: what the translation of an
  expression of each form is made of; `Expr.grows_toC`: it only adds
  identifiers; `Expr.exists_toC`: well-formed expressions are translated.
* `IsFunctionOf`, `exists_mapM_toC`: the functions of declarations.
-/
import FlatClosure.Proofs.Basic
import FlatClosure.Proofs.MintedNames
import FlatClosure.Proofs.WellFormed
import FlatClosure.Target.CUnitOfProgram

namespace FlatClosure

namespace Locals

/-- The candidates for the identifier of a name, when suffixes up to `base`
have been tried. -/
def numbered (name : Text) (base : Nat) : Nat → Text
  | 0 => name
  | k + 1 => name ++ "_" ++ Text.ofNat (base + k + 1)

lemma numbered_injective (name : Text) (base : Nat) :
    Function.Injective (numbered name base) := by
  have hsucc : ∀ k, name ≠ numbered name base (k + 1) := by
    intro k heq
    have hlen := congrArg List.length heq
    have hdash : (Text.ofString "_").length = 1 := rfl
    simp only [numbered, List.length_append, hdash] at hlen
    omega
  intro j k heq
  cases j with
  | zero =>
      cases k with
      | zero => rfl
      | succ k => exact absurd heq (hsucc k)
  | succ j =>
      cases k with
      | zero => exact absurd heq.symm (hsucc j)
      | succ k =>
          have hnum := Text.ofNat_injective (List.append_cancel_left heq)
          omega

/-- What must not be declared. -/
def avoided (l : Locals) : List Text := reservedWords ++ l.globals ++ l.declared

lemma taken_iff {l : Locals} {name : Text} : l.taken name ↔ name ∈ l.avoided := by
  simp [taken, avoided, or_assoc]

/-- The search passes over candidates that are taken, and stops early only at
one that is not taken. -/
lemma search_eq (l : Locals) (name : Text) (base tries i : Nat) :
    ∃ k ≤ tries,
      l.search name tries (base + i) (numbered name base i) =
        (numbered name base (i + k), base + (i + k)) ∧
      (∀ j < k, numbered name base (i + j) ∈ l.avoided) ∧
      (k < tries → numbered name base (i + k) ∉ l.avoided) := by
  induction tries generalizing i with
  | zero => exact ⟨0, le_rfl, rfl, by simp, by simp⟩
  | succ tries ih =>
      by_cases htaken : l.taken (numbered name base i)
      · obtain ⟨k, hk, heq, hbelow, hstop⟩ := ih (i + 1)
        refine ⟨k + 1, by omega, ?_, ?_, ?_⟩
        · have hnext : numbered name base (i + 1) =
              name ++ "_" ++ Text.ofNat (base + i + 1) := rfl
          rw [search, if_pos htaken, ← hnext, Nat.add_assoc base, heq]
          simp only [Nat.add_right_comm i 1 k, Nat.add_assoc]
        · intro j hj
          cases j with
          | zero => exact taken_iff.mp htaken
          | succ j =>
              have h := hbelow j (by omega)
              rwa [Nat.add_right_comm i 1 j] at h
        · intro hlt
          have h := hstop (by omega)
          rwa [Nat.add_right_comm i 1 k] at h
      · refine ⟨0, by omega, ?_, by simp, fun _ => ?_⟩
        · rw [search, if_neg htaken]
          rfl
        · exact fun h => htaken (taken_iff.mpr h)

/-- The identifier for a name is one of its candidates, and none of those that
must not be declared. -/
lemma declare_eq (l : Locals) (name : Text) :
    ∃ k, l.declare name =
        (numbered name l.suffix k,
          { l with
            declared := numbered name l.suffix k :: l.declared
            suffix := l.suffix + k }) ∧
      numbered name l.suffix k ∉ l.avoided := by
  have htries : reservedWords.length + l.globals.length + l.declared.length =
      l.avoided.length := by
    rw [avoided, List.length_append, List.length_append]
  obtain ⟨k, hk, heq, hbelow, hstop⟩ := l.search_eq name l.suffix l.avoided.length 0
  rw [Nat.zero_add] at heq
  refine ⟨k, ?_, ?_⟩
  · rw [declare, htries]
    exact congrArg (fun p : Text × Nat =>
      (p.1, { l with declared := p.1 :: l.declared, suffix := p.2 })) heq
  · simp only [Nat.zero_add] at hbelow hstop
    by_cases hlt : k < l.avoided.length
    · exact hstop hlt
    · -- all candidates but the last are taken, so the last is not
      obtain ⟨j, hj, hnot⟩ :=
        exists_notMem_of_injective (numbered_injective name l.suffix) l.avoided
      by_cases hjk : j = k
      · rw [← hjk]
        exact hnot
      · exact absurd (hbelow j (by omega)) hnot

/-- Whether the declared identifiers differ from each other, from reserved
words and from functions. -/
structure Apart (l : Locals) : Prop where
  nodup : l.declared.Nodup
  notMem_reservedWords : ∀ x ∈ l.declared, x ∉ reservedWords
  notMem_globals : ∀ x ∈ l.declared, x ∉ l.globals

/-- Whether identifiers were only added, each apart from those before. -/
structure Grows (l l' : Locals) : Prop where
  globals : l'.globals = l.globals
  declared : l.declared ⊆ l'.declared
  apart : l.Apart → l'.Apart

lemma apart_empty (globals : List Text) : (empty globals).Apart :=
  ⟨List.nodup_nil, by simp [empty], by simp [empty]⟩

lemma Grows.refl (l : Locals) : l.Grows l := ⟨rfl, List.Subset.refl _, id⟩

lemma Grows.trans {l l' l'' : Locals} (h : l.Grows l') (h' : l'.Grows l'') : l.Grows l'' :=
  ⟨h'.globals.trans h.globals, fun _ hx => h'.declared (h.declared hx), h'.apart ∘ h.apart⟩

lemma declared_declare (l : Locals) (name : Text) :
    (l.declare name).2.declared = (l.declare name).1 :: l.declared := by
  obtain ⟨k, heq, -⟩ := l.declare_eq name
  rw [heq]

/-- The identifier that is picked is not declared, not reserved and not a
function. -/
lemma declare_notMem (l : Locals) (name : Text) :
    (l.declare name).1 ∉ l.declared ∧ (l.declare name).1 ∉ reservedWords ∧
      (l.declare name).1 ∉ l.globals := by
  obtain ⟨k, heq, hnot⟩ := l.declare_eq name
  rw [avoided, List.mem_append, List.mem_append, not_or, not_or] at hnot
  rw [heq]
  exact ⟨hnot.2, hnot.1.1, hnot.1.2⟩

lemma globals_declare (l : Locals) (name : Text) : (l.declare name).2.globals = l.globals := by
  obtain ⟨k, heq, -⟩ := l.declare_eq name
  rw [heq]

lemma grows_declare (l : Locals) (name : Text) : l.Grows (l.declare name).2 := by
  obtain ⟨hdeclared, hreserved, hglobals⟩ := l.declare_notMem name
  refine ⟨l.globals_declare name, ?_, fun hl => ⟨?_, ?_, ?_⟩⟩
  · rw [declared_declare]
    exact List.subset_cons_self _ _
  · rw [declared_declare]
    exact List.nodup_cons.mpr ⟨hdeclared, hl.nodup⟩
  · rw [declared_declare]
    exact List.forall_mem_cons.mpr ⟨hreserved, hl.notMem_reservedWords⟩
  · rw [declared_declare, globals_declare]
    exact List.forall_mem_cons.mpr ⟨hglobals, hl.notMem_globals⟩

end Locals

/-! ### Translated expressions -/

namespace Expr

variable {envs scope : Bindings} {l l' : Locals} {body : CBody}

lemma exists_of_toC_slot {env : Text} {index : Int}
    (h : (slot env index).toC envs scope l = .ok (body, l')) :
    ∃ identifier, envs.lookup env = some identifier ∧ body = ⟨[], .slot identifier index⟩ ∧
      l' = l := by
  rw [toC] at h
  cases hlook : envs.lookup env with
  | none => rw [hlook] at h; exact absurd h (by simp)
  | some identifier =>
      rw [hlook] at h
      cases h
      exact ⟨identifier, rfl, rfl, rfl⟩

lemma exists_of_toC_app {func : Text} {arg : Expr}
    (h : (app func arg).toC envs scope l = .ok (body, l')) :
    ∃ argument, arg.toC envs scope l = .ok (argument, l') ∧
      body = ⟨argument.stmts, .call (scope.identifier func) argument.value⟩ := by
  rw [toC] at h
  obtain ⟨⟨argument, l₁⟩, harg, h⟩ := Except.exists_of_bind_ok h
  cases h
  exact ⟨argument, harg, rfl⟩

lemma exists_of_toC_closure {func : Text} {captured : List Expr}
    (h : (closure func captured).toC envs scope l = .ok (body, l')) :
    ∃ stmts values, toCAll envs scope l captured = .ok (stmts, values, l') ∧
      body = ⟨stmts, .closure func values⟩ := by
  rw [toC] at h
  obtain ⟨⟨stmts, values, l₁⟩, hall, h⟩ := Except.exists_of_bind_ok h
  cases h
  exact ⟨stmts, values, hall, rfl⟩

lemma exists_of_toC_letIn {name : Text} {bind e : Expr}
    (h : (letIn name bind e).toC envs scope l = .ok (body, l')) :
    ∃ bound l₁ rest, bind.toC envs scope (l.declare name).2 = .ok (bound, l₁) ∧
      e.toC envs ((name, (l.declare name).1) :: scope) l₁ = .ok (rest, l') ∧
      body = ⟨.declare (l.declare name).1 :: bound.stmts ++
        .assign (l.declare name).1 bound.value :: rest.stmts, rest.value⟩ := by
  rw [toC] at h
  obtain ⟨⟨bound, l₁⟩, hbind, h⟩ := Except.exists_of_bind_ok h
  obtain ⟨⟨rest, l₂⟩, hrest, h⟩ := Except.exists_of_bind_ok h
  cases h
  exact ⟨bound, l₁, rest, hbind, hrest, rfl⟩

lemma exists_of_toCAll_cons {e : Expr} {es : List Expr} {stmts : List CStmt}
    {values : List CExpr} (h : toCAll envs scope l (e :: es) = .ok (stmts, values, l')) :
    ∃ first l₁ stmts' values', e.toC envs scope l = .ok (first, l₁) ∧
      toCAll envs scope l₁ es = .ok (stmts', values', l') ∧
      stmts = first.stmts ++ stmts' ∧ values = first.value :: values' := by
  rw [toCAll] at h
  obtain ⟨⟨first, l₁⟩, hfirst, h⟩ := Except.exists_of_bind_ok h
  obtain ⟨⟨stmts', values', l₂⟩, hrest, h⟩ := Except.exists_of_bind_ok h
  cases h
  exact ⟨first, l₁, stmts', values', hfirst, hrest, rfl, rfl⟩

/-- What every captured expression preserves is preserved by all of them. -/
lemma toCAll_invariant {P : Locals → Prop} {es : List Expr} {stmts : List CStmt}
    {values : List CExpr} (h : toCAll envs scope l es = .ok (stmts, values, l'))
    (hes : ∀ e ∈ es, ∀ l body l', e.toC envs scope l = .ok (body, l') → P l → P l')
    (hl : P l) : P l' := by
  induction es generalizing l stmts values with
  | nil =>
      rw [toCAll] at h
      cases h
      exact hl
  | cons e es ih =>
      obtain ⟨first, l₁, stmts', values', hfirst, hrest, -, -⟩ := exists_of_toCAll_cons h
      exact ih hrest (fun e' he' => hes e' (List.mem_cons_of_mem e he'))
        (hes e List.mem_cons_self l first l₁ hfirst hl)

/-- Translating an expression only adds identifiers. -/
lemma grows_toC (e : Expr) (h : e.toC envs scope l = .ok (body, l')) : l.Grows l' := by
  induction e using ind generalizing scope l body l' with
  | num value => cases h; exact .refl _
  | ref name => cases h; exact .refl _
  | slot env index =>
      obtain ⟨identifier, -, -, rfl⟩ := exists_of_toC_slot h
      exact .refl l'
  | app func arg ih =>
      obtain ⟨argument, harg, -⟩ := exists_of_toC_app h
      exact ih harg
  | closure func captured ih =>
      obtain ⟨stmts, values, hall, -⟩ := exists_of_toC_closure h
      exact toCAll_invariant hall (fun e he l₁ body l₂ h₁ hgrow => hgrow.trans (ih e he h₁))
        (.refl l)
  | letIn name bind e ihb ih =>
      obtain ⟨bound, l₁, rest, hbind, hrest, -⟩ := exists_of_toC_letIn h
      exact (l.grows_declare name).trans ((ihb hbind).trans (ih hrest))
  | missing => exact absurd h (by simp [toC])

lemma grows_toCAll {es : List Expr} {stmts : List CStmt} {values : List CExpr}
    (h : toCAll envs scope l es = .ok (stmts, values, l')) : l.Grows l' :=
  toCAll_invariant h (fun e _ _ _ _ h₁ hgrow => hgrow.trans (grows_toC e h₁)) (.refl l)

/-- Captured expressions are translated if each of them is. -/
lemma exists_toCAll {es : List Expr}
    (hes : ∀ e ∈ es, ∀ l, ∃ body l', e.toC envs scope l = .ok (body, l')) (l : Locals) :
    ∃ stmts values l', toCAll envs scope l es = .ok (stmts, values, l') := by
  induction es generalizing l with
  | nil => exact ⟨[], [], l, rfl⟩
  | cons e es ih =>
      obtain ⟨first, l₁, hfirst⟩ := hes e List.mem_cons_self l
      obtain ⟨stmts, values, l', hrest⟩ := ih (fun c hc => hes c (List.mem_cons_of_mem e hc)) l₁
      refine ⟨first.stmts ++ stmts, first.value :: values, l', ?_⟩
      simp only [toCAll, hfirst, Except.ok_bind, hrest]
      rfl

/-- An expression is translated where its environments are bound. -/
lemma exists_toC (e : Expr) {p : ExprPlace} (hwf : e.WellFormed p)
    (henvs : ∀ q ∈ p.envs, ∃ identifier, envs.lookup q.1 = some identifier)
    (scope : Bindings) (l : Locals) : ∃ body l', e.toC envs scope l = .ok (body, l') := by
  induction e using ind generalizing p scope l with
  | num value => exact ⟨_, _, rfl⟩
  | ref name => exact ⟨_, _, rfl⟩
  | slot env index =>
      obtain ⟨size, hmem, -⟩ := hwf
      obtain ⟨identifier, hlook⟩ := henvs _ hmem
      exact ⟨⟨[], .slot identifier index⟩, l, by rw [toC, hlook]⟩
  | app func arg ih =>
      obtain ⟨argument, l', harg⟩ := ih hwf.2 henvs scope l
      refine ⟨⟨argument.stmts, .call (scope.identifier func) argument.value⟩, l', ?_⟩
      rw [toC, harg]
      rfl
  | closure func captured ih =>
      obtain ⟨stmts, values, l', hall⟩ := exists_toCAll
        (fun c hc => ih c hc (allWellFormed_iff.mp hwf.2.2 c hc) henvs scope) l
      refine ⟨⟨stmts, .closure func values⟩, l', ?_⟩
      rw [toC, hall]
      rfl
  | letIn name bound e ihb ih =>
      obtain ⟨first, l₁, hfirst⟩ := ihb hwf.1 henvs scope (l.declare name).2
      obtain ⟨rest, l₂, hrest⟩ :=
        ih (p := p.bind name) hwf.2 henvs ((name, (l.declare name).1) :: scope) l₁
      refine ⟨⟨.declare (l.declare name).1 :: first.stmts ++
        .assign (l.declare name).1 first.value :: rest.stmts, rest.value⟩, l₂, ?_⟩
      simp only [toC, hfirst, Except.ok_bind, hrest]
      rfl
  | missing => exact absurd hwf id

end Expr

/-! ### Translated declarations -/

namespace Decl

variable (globals : List Text) (d : Decl)

/-- The identifier of the environment of a declaration. -/
def cEnv : Text := ((Locals.empty globals).declare d.env).1

/-- The identifier of the argument of a declaration. -/
def cArg : Text := (((Locals.empty globals).declare d.env).2.declare d.arg).1

/-- The identifiers at the start of the body of a declaration. -/
def cLocals : Locals := (((Locals.empty globals).declare d.env).2.declare d.arg).2

lemma grows_cLocals : (Locals.empty globals).Grows (d.cLocals globals) :=
  (Locals.grows_declare _ _).trans (Locals.grows_declare _ _)

lemma declared_cLocals : (d.cLocals globals).declared = [d.cArg globals, d.cEnv globals] := by
  rw [cLocals, Locals.declared_declare, Locals.declared_declare]
  rfl

lemma cArg_ne_cEnv : d.cArg globals ≠ d.cEnv globals := by
  have hnodup := ((d.grows_cLocals globals).apart (Locals.apart_empty globals)).nodup
  rw [declared_cLocals] at hnodup
  exact fun heq => (List.nodup_cons.mp hnodup).1 (heq ▸ List.mem_cons_self)

end Decl

/-- Whether an item is the function of a declaration. -/
def IsFunctionOf (globals : List Text) (d : Decl) (item : CItem) : Prop :=
  ∃ body l, d.body.toC [(d.env, d.cEnv globals)] [(d.arg, d.cArg globals)]
      (d.cLocals globals) = .ok (body, l) ∧
    item = .function d.name (d.cEnv globals) (d.cArg globals) body

section

variable {globals : List Text} {earlier decls : List Decl} {d : Decl}

lemma isFunctionOf_of_toC {item : CItem} (h : (Item.decl d).toC globals = .ok item) :
    IsFunctionOf globals d item := by
  obtain ⟨⟨body, l⟩, hbody, h⟩ := Except.exists_of_bind_ok h
  cases h
  exact ⟨body, l, hbody, rfl⟩

/-- The function of a well-formed declaration. -/
lemma exists_toC_decl (hwf : d.body.WellFormed (d.place earlier)) :
    ∃ item, (Item.decl d).toC globals = .ok item := by
  have henvs : ∀ q ∈ (d.place earlier).envs,
      ∃ id, List.lookup q.1 [(d.env, d.cEnv globals)] = some id := by
    intro q hq
    rw [List.mem_singleton.mp hq]
    exact ⟨d.cEnv globals, List.lookup_cons_self⟩
  obtain ⟨body, l, htoC⟩ :=
    d.body.exists_toC hwf henvs [(d.arg, d.cArg globals)] (d.cLocals globals)
  refine ⟨.function d.name (d.cEnv globals) (d.cArg globals) body, ?_⟩
  rw [Decl.cEnv, Decl.cArg, Decl.cLocals] at htoC
  simp only [Item.toC, htoC]
  rfl

/-- The functions of well-formed declarations. -/
lemma exists_mapM_toC (globals : List Text) (hwf : DeclsWellFormed [] decls) :
    ∃ items, (decls.map Item.decl).mapM (Item.toC globals) = .ok items ∧
      List.Forall₂ (IsFunctionOf globals) decls items := by
  rw [List.mapM_map]
  have hall : ∀ d ∈ decls, ∃ item, (Item.toC globals ∘ Item.decl) d = .ok item := by
    intro d hd
    obtain ⟨earlier, -, hbody⟩ := hwf.exists_of_mem hd
    exact exists_toC_decl hbody
  obtain ⟨items, hitems, hof⟩ := Except.exists_mapM_ok hall
  exact ⟨items, hitems, hof.imp fun _ _ h => isFunctionOf_of_toC h⟩

end

end FlatClosure
