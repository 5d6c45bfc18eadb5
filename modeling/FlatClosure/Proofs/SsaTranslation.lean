/-
Translation to LLVM.

* `Expr.exists_of_toSsa_ref` and its companions: what the translation of an
  expression of each form is made of.
* `Expr.exists_toSsa`: well-formed expressions are translated.
* `Expr.exists_operand_of_mem_free`: an expression that is translated has an
  operand for each of its free names.
* `lookup_functionOperands`: the operand of a declared function is its position
  in the module.
* `ssaFunctions_eq`: if names are distinct, every function has its own block.
-/
import Mathlib.Data.List.Nodup
import FlatClosure.Proofs.Basic
import FlatClosure.Proofs.WellFormed
import FlatClosure.Target.SsaModuleOfProgram

namespace FlatClosure

/-! ### Translated expressions -/

namespace Expr

variable {ctx : SsaContext} {start : Nat} {scope : Operands} {code : SsaCode}

lemma exists_of_toSsa_ref {name : Text} (h : (ref name).toSsa ctx start scope = .ok code) :
    ∃ operand, scope.lookup name = some operand ∧ code = ⟨[], operand⟩ := by
  rw [toSsa] at h
  cases hlook : scope.lookup name with
  | none => rw [hlook] at h; exact absurd h (by simp)
  | some operand =>
      rw [hlook] at h
      cases h
      exact ⟨operand, rfl, rfl⟩

lemma exists_of_toSsa_slot {env : Text} {index : Int}
    (h : (slot env index).toSsa ctx start scope = .ok code) :
    ∃ operand, ctx.envs.lookup env = some operand ∧
      code = ⟨[.elementPtr .valueRef ⟨.slotRef, operand⟩ [⟨.i64, .int index⟩],
        .load .valueRef ⟨.slotRef, .result start⟩], .result (start + 1)⟩ := by
  rw [toSsa] at h
  cases hlook : ctx.envs.lookup env with
  | none => rw [hlook] at h; exact absurd h (by simp)
  | some operand =>
      rw [hlook] at h
      cases h
      exact ⟨operand, rfl, rfl⟩

lemma exists_of_toSsa_app {func : Text} {arg : Expr}
    (h : (app func arg).toSsa ctx start scope = .ok code) :
    ∃ callee argument, scope.lookup func = some callee ∧
      arg.toSsa ctx start scope = .ok argument ∧
      code = ⟨argument.instrs ++
          applyInstrs (start + resultCount argument.instrs) callee argument.value,
        .result (start + resultCount argument.instrs + 4)⟩ := by
  rw [toSsa] at h
  cases hlook : scope.lookup func with
  | none => rw [hlook] at h; exact absurd h (by simp)
  | some callee =>
      rw [hlook] at h
      obtain ⟨argument, harg, h⟩ := Except.exists_of_bind_ok h
      cases h
      exact ⟨callee, argument, rfl, harg, rfl⟩

lemma exists_of_toSsa_closure {func : Text} {captured : List Expr}
    (h : (closure func captured).toSsa ctx start scope = .ok code) :
    ∃ operand instrs values, ctx.funcs.lookup func = some operand ∧
      toSsaAll ctx start scope captured = .ok (instrs, values) ∧
      code = ⟨instrs ++ (closureCode (start + resultCount instrs) operand values).instrs,
        (closureCode (start + resultCount instrs) operand values).value⟩ := by
  rw [toSsa] at h
  cases hlook : ctx.funcs.lookup func with
  | none => rw [hlook] at h; exact absurd h (by simp)
  | some operand =>
      rw [hlook] at h
      obtain ⟨⟨instrs, values⟩, hall, h⟩ := Except.exists_of_bind_ok h
      cases h
      exact ⟨operand, instrs, values, rfl, hall, rfl⟩

lemma exists_of_toSsa_letIn {name : Text} {bind body : Expr}
    (h : (letIn name bind body).toSsa ctx start scope = .ok code) :
    ∃ bound rest, bind.toSsa ctx start scope = .ok bound ∧
      body.toSsa ctx (start + resultCount bound.instrs) ((name, bound.value) :: scope) =
        .ok rest ∧
      code = ⟨bound.instrs ++ rest.instrs, rest.value⟩ := by
  rw [toSsa] at h
  obtain ⟨bound, hbound, h⟩ := Except.exists_of_bind_ok h
  obtain ⟨rest, hrest, h⟩ := Except.exists_of_bind_ok h
  cases h
  exact ⟨bound, rest, hbound, hrest, rfl⟩

lemma exists_of_toSsaAll_cons {e : Expr} {es : List Expr} {instrs : List Instr}
    {values : List Operand} (h : toSsaAll ctx start scope (e :: es) = .ok (instrs, values)) :
    ∃ first instrs' values', e.toSsa ctx start scope = .ok first ∧
      toSsaAll ctx (start + resultCount first.instrs) scope es = .ok (instrs', values') ∧
      instrs = first.instrs ++ instrs' ∧ values = first.value :: values' := by
  rw [toSsaAll] at h
  obtain ⟨first, hfirst, h⟩ := Except.exists_of_bind_ok h
  obtain ⟨⟨instrs', values'⟩, hrest, h⟩ := Except.exists_of_bind_ok h
  cases h
  exact ⟨first, instrs', values', hfirst, hrest, rfl, rfl⟩

/-- Each of the captured expressions is translated where all of them are. -/
lemma exists_toSsa_of_mem {es : List Expr} {result : List Instr × List Operand}
    (h : toSsaAll ctx start scope es = .ok result) {e : Expr} (he : e ∈ es) :
    ∃ start' code, e.toSsa ctx start' scope = .ok code := by
  induction es generalizing start result with
  | nil => exact absurd he List.not_mem_nil
  | cons c es ih =>
      obtain ⟨first, instrs, values, hfirst, hrest, -, -⟩ := exists_of_toSsaAll_cons h
      rcases List.mem_cons.mp he with rfl | he
      · exact ⟨start, first, hfirst⟩
      · exact ih hrest he

/-- An expression that is translated has an operand for each of its free names,
as a bound name or as an environment. -/
lemma exists_operand_of_mem_free {e : Expr} (h : e.toSsa ctx start scope = .ok code) {x : Text}
    (hx : x ∈ e.free) :
    ∃ operand, scope.lookup x = some operand ∨ ctx.envs.lookup x = some operand := by
  induction e using ind generalizing start scope code with
  | num value => exact absurd hx List.not_mem_nil
  | ref name =>
      obtain ⟨operand, hlook, -⟩ := exists_of_toSsa_ref h
      rw [free_ref, List.mem_singleton] at hx
      exact ⟨operand, Or.inl (hx ▸ hlook)⟩
  | slot env index =>
      obtain ⟨operand, hlook, -⟩ := exists_of_toSsa_slot h
      rw [free_slot, List.mem_singleton] at hx
      exact ⟨operand, Or.inr (hx ▸ hlook)⟩
  | app func arg ih =>
      obtain ⟨callee, argument, hlook, harg, -⟩ := exists_of_toSsa_app h
      rcases mem_free_app.mp hx with rfl | hx
      · exact ⟨callee, Or.inl hlook⟩
      · exact ih harg hx
  | closure func captured ih =>
      obtain ⟨operand, instrs, values, -, hall, -⟩ := exists_of_toSsa_closure h
      obtain ⟨c, hc, hx⟩ := mem_free_closure.mp hx
      obtain ⟨start', code', hcode⟩ := exists_toSsa_of_mem hall hc
      exact ih c hc hcode hx
  | letIn name bind body ihb ih =>
      obtain ⟨bound, rest, hbound, hrest, -⟩ := exists_of_toSsa_letIn h
      rcases mem_free_letIn.mp hx with hx | ⟨hx, hne⟩
      · exact ihb hbound hx
      · have hbody := ih hrest hx
        rwa [lookup_cons_of_ne hne] at hbody
  | missing => exact absurd hx List.not_mem_nil

/-- Captured expressions are translated if each of them is. -/
lemma exists_toSsaAll {es : List Expr}
    (hes : ∀ e ∈ es, ∀ start, ∃ code, e.toSsa ctx start scope = .ok code) (start : Nat) :
    ∃ instrs values, toSsaAll ctx start scope es = .ok (instrs, values) := by
  induction es generalizing start with
  | nil => exact ⟨[], [], rfl⟩
  | cons e es ih =>
      obtain ⟨first, hfirst⟩ := hes e List.mem_cons_self start
      obtain ⟨instrs, values, hrest⟩ := ih (fun c hc => hes c (List.mem_cons_of_mem e hc))
        (start + resultCount first.instrs)
      refine ⟨first.instrs ++ instrs, first.value :: values, ?_⟩
      simp only [toSsaAll, hfirst, Except.ok_bind, hrest]
      rfl

/-- An expression is translated where all that its place offers has an
operand. -/
lemma exists_toSsa (ctx : SsaContext) (e : Expr) {p : ExprPlace} (hwf : e.WellFormed p)
    (hfuncs : ∀ d ∈ p.decls, ∃ operand, ctx.funcs.lookup d.name = some operand)
    (henvs : ∀ q ∈ p.envs, ∃ operand, ctx.envs.lookup q.1 = some operand) {scope : Operands}
    (hscope : ∀ x ∈ p.locals, ∃ operand, scope.lookup x = some operand) (start : Nat) :
    ∃ code, e.toSsa ctx start scope = .ok code := by
  induction e using ind generalizing p scope start with
  | num value => exact ⟨_, rfl⟩
  | ref name =>
      obtain ⟨operand, hlook⟩ := hscope name hwf
      exact ⟨⟨[], operand⟩, by rw [toSsa, hlook]⟩
  | slot env index =>
      obtain ⟨size, hmem, -⟩ := hwf
      obtain ⟨operand, hlook⟩ := henvs _ hmem
      exact ⟨_, by rw [toSsa, hlook]⟩
  | app func arg ih =>
      obtain ⟨callee, hlook⟩ := hscope func hwf.1
      obtain ⟨argument, harg⟩ := ih hwf.2 hfuncs henvs hscope start
      refine ⟨⟨argument.instrs ++ applyInstrs (start + resultCount argument.instrs) callee
        argument.value, .result (start + resultCount argument.instrs + 4)⟩, ?_⟩
      rw [toSsa, hlook]
      dsimp only
      rw [harg]
      rfl
  | closure func captured ih =>
      obtain ⟨⟨d, hd, rfl, -⟩, -, hwfAll⟩ := hwf
      obtain ⟨operand, hlook⟩ := hfuncs d hd
      obtain ⟨instrs, values, hall⟩ := exists_toSsaAll
        (fun c hc => ih c hc (allWellFormed_iff.mp hwfAll c hc) hfuncs henvs hscope) start
      refine ⟨⟨instrs ++ (closureCode (start + resultCount instrs) operand values).instrs,
        (closureCode (start + resultCount instrs) operand values).value⟩, ?_⟩
      rw [toSsa, hlook]
      dsimp only
      rw [hall]
      rfl
  | letIn name bind body ihb ih =>
      obtain ⟨bound, hbound⟩ := ihb hwf.1 hfuncs henvs hscope start
      have hscope' : ∀ x ∈ (p.bind name).locals,
          ∃ operand, List.lookup x ((name, bound.value) :: scope) = some operand := by
        intro x hx
        by_cases heq : x = name
        · exact ⟨bound.value, by rw [heq, List.lookup_cons_self]⟩
        · rw [lookup_cons_of_ne heq]
          exact hscope x ((List.mem_cons.mp hx).resolve_left heq)
      obtain ⟨rest, hrest⟩ := ih (p := p.bind name) hwf.2 hfuncs henvs hscope'
        (start + resultCount bound.instrs)
      refine ⟨⟨bound.instrs ++ rest.instrs, rest.value⟩, ?_⟩
      simp only [toSsa, hbound, Except.ok_bind, hrest]
      rfl
  | missing => exact absurd hwf id

end Expr

/-! ### Functions of a module -/

/-- The operand of a declared function is its position in the module. -/
lemma lookup_functionOperands {decls : List Decl} (hnodup : (decls.map Decl.name).Nodup)
    {k : Nat} {d : Decl} (hd : decls[k]? = some d) :
    (functionOperands decls).lookup d.name = some (.func (supportFunctions.length + k)) := by
  have hkeys : (functionOperands decls).map Prod.fst = (decls.map Decl.name).reverse := by
    rw [functionOperands, List.map_reverse, List.map_map]
    congr 1
    nth_rewrite 2 [← List.zipIdx_map_fst supportFunctions.length decls]
    rw [List.map_map]
    rfl
  refine lookup_of_mem (hkeys ▸ List.nodup_reverse.mpr hnodup) ?_
  rw [functionOperands, List.mem_reverse, List.mem_map]
  exact ⟨(d, supportFunctions.length + k), List.mem_zipIdx_iff_le_and_getElem?_sub.mpr
    ⟨Nat.le_add_right _ _, by rwa [Nat.add_sub_cancel_left]⟩, rfl⟩

lemma exists_lookup_functionOperands {decls : List Decl} (hnodup : (decls.map Decl.name).Nodup)
    {d : Decl} (hd : d ∈ decls) :
    ∃ operand, (functionOperands decls).lookup d.name = some operand := by
  obtain ⟨k, hk⟩ := List.getElem?_of_mem hd
  exact ⟨_, lookup_functionOperands hnodup hk⟩

/-- The block of a declaration whose body uses only declared functions. -/
lemma Decl.exists_toSsa {decls earlier : List Decl} (hnodup : (decls.map Decl.name).Nodup)
    (hearlier : earlier ⊆ decls) {d : Decl} (hwf : d.body.WellFormed (d.place earlier)) :
    ∃ block, d.toSsa (functionOperands decls) = .ok block := by
  have henvs : ∀ q ∈ (d.place earlier).envs,
      ∃ operand, List.lookup q.1 [(d.env, Operand.param 0)] = some operand := by
    intro q hq
    rw [List.mem_singleton.mp hq]
    exact ⟨.param 0, List.lookup_cons_self⟩
  have hscope : ∀ x ∈ (d.place earlier).locals,
      ∃ operand, List.lookup x [(d.arg, Operand.param 1)] = some operand := by
    intro x hx
    rw [List.mem_singleton.mp hx]
    exact ⟨.param 1, List.lookup_cons_self⟩
  obtain ⟨code, hcode⟩ :=
    d.body.exists_toSsa ⟨functionOperands decls, [(d.env, .param 0)]⟩ hwf
      (fun d' hd' => exists_lookup_functionOperands hnodup (hearlier hd')) henvs hscope 0
  refine ⟨⟨code.instrs, ⟨.valueRef, code.value⟩⟩, ?_⟩
  rw [Decl.toSsa, hcode]
  rfl

/-- The function of a declaration with one block. -/
def Decl.ssaFunction (d : Decl) (block : Block) : SsaFunction :=
  ⟨d.name, .valueRef, d.ssaParams, [block]⟩

/-- If the names are distinct, every function has its own block. -/
lemma ssaFunctions_eq {made : List (Text × Block)} {pairs : List (Decl × Block)}
    (hnodup : (pairs.map (·.1.name)).Nodup)
    (hmade : ∀ q ∈ made, q.1 ∉ pairs.map (·.1.name)) :
    ssaFunctions made pairs = pairs.map fun q => q.1.ssaFunction q.2 := by
  induction pairs generalizing made with
  | nil => rfl
  | cons pair pairs ih =>
      obtain ⟨d, block⟩ := pair
      obtain ⟨hnotMem, hnodup⟩ := List.nodup_cons.mp hnodup
      have hlast : pairs.any (·.1.name == d.name) = false := by
        refine List.any_eq_false.mpr fun q hq heq => hnotMem ?_
        exact List.mem_map.mpr ⟨q, hq, eq_of_beq heq⟩
      have hblocks : (made ++ [(d.name, block)]).filter (·.1 == d.name) = [(d.name, block)] := by
        rw [List.filter_append, List.filter_eq_nil_iff.mpr]
        · simp
        · exact fun q hq heq => hmade q hq (eq_of_beq heq ▸ List.mem_cons_self)
      rw [ssaFunctions, hlast, hblocks, ih hnodup]
      · rfl
      · intro q hq
        rcases List.mem_append.mp hq with hq | hq
        · exact fun hmem => hmade q hq (List.mem_cons_of_mem _ hmem)
        · rw [List.mem_singleton.mp hq]
          exact hnotMem

end FlatClosure
