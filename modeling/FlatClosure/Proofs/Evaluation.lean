/-
Evaluations that succeed.

A flat program has no branches, so an evaluation that gives a value has
evaluated every part of its expression, and each part gave a value.

* `Counted.exists_of_bind_ok`: both parts of a computation that gives a value
  give one.
* `Expr.lookup_of_eval_ref`, `Expr.exists_of_eval_slot` and their companions:
  what has to hold for an expression of each form to have a value.
* `Value.exists_of_apply`: what has to hold for an application to have one.
* `mem_of_findDecl?`: a declaration that is found is one of the name.
* `Program.runUnder`: what a program prints under a limit;
  `Program.exists_of_runUnder`: it prints the value of its entry.
-/
import Mathlib.Tactic.Common
import FlatClosure.Machine

namespace FlatClosure

/-- Both parts of a computation that gives a value give one. -/
lemma Counted.exists_of_bind_ok {α β : Type} {x : Counted α} {f : α → Counted β} {b : β}
    (h : (x >>= f).outcome = .ok b) :
    ∃ a, x.outcome = .ok a ∧ (f a).outcome = .ok b := by
  obtain ⟨outcome, n⟩ := x
  cases outcome with
  | error stop => exact absurd h (by simp [bind])
  | ok a => exact ⟨a, rfl, h⟩

/-! ### Expressions -/

namespace Expr

variable {decls : List Decl} {call : Value → Value → Counted Value} {f : LocalFrame} {v : Value}

lemma lookup_of_local? {name : Text} (h : (f.local? name).outcome = .ok v) :
    f.locals.lookup name = some v := by
  rw [LocalFrame.local?] at h
  cases hlook : f.locals.lookup name with
  | none => rw [hlook] at h; exact absurd h (by simp [Counted.raise])
  | some value =>
      rw [hlook] at h
      cases h
      rfl

lemma lookup_of_eval_ref {name : Text} (h : ((ref name).eval decls call f).outcome = .ok v) :
    f.locals.lookup name = some v := lookup_of_local? h

lemma exists_of_eval_slot {env : Text} {index : Int}
    (h : ((slot env index).eval decls call f).outcome = .ok v) :
    ∃ values, f.envs.lookup env = some values ∧
      ∃ i : Nat, index = i ∧ values[i]? = some v := by
  rw [eval, LocalFrame.slot?] at h
  cases hlook : f.envs.lookup env with
  | none => rw [hlook] at h; exact absurd h (by simp [Counted.raise])
  | some values =>
      rw [hlook] at h
      dsimp only at h
      refine ⟨values, rfl, index.toNat, ?_⟩
      by_cases hindex : 0 ≤ index
      · rw [if_pos hindex] at h
        cases hvalue : values[index.toNat]? with
        | none => rw [hvalue] at h; exact absurd h (by simp [Counted.raise])
        | some value =>
            rw [hvalue] at h
            cases h
            exact ⟨by omega, rfl⟩
      · rw [if_neg hindex] at h
        exact absurd h (by simp [Counted.raise])

lemma exists_of_eval_app {func : Text} {arg : Expr}
    (h : ((app func arg).eval decls call f).outcome = .ok v) :
    ∃ callee argument, f.locals.lookup func = some callee ∧
      (arg.eval decls call f).outcome = .ok argument ∧
      (call callee argument).outcome = .ok v := by
  rw [eval] at h
  obtain ⟨callee, hcallee, h⟩ := Counted.exists_of_bind_ok h
  obtain ⟨argument, hargument, h⟩ := Counted.exists_of_bind_ok h
  exact ⟨callee, argument, lookup_of_local? hcallee, hargument, h⟩

lemma exists_of_eval_closure {func : Text} {captured : List Expr}
    (h : ((closure func captured).eval decls call f).outcome = .ok v) :
    ∃ d values, findDecl? decls func = some d ∧
      (evalAll decls call f captured).outcome = .ok values ∧ v = .closure d values := by
  rw [eval] at h
  cases hfind : findDecl? decls func with
  | none => rw [hfind] at h; exact absurd h (by simp [Counted.raise])
  | some d =>
      rw [hfind] at h
      obtain ⟨values, hvalues, h⟩ := Counted.exists_of_bind_ok h
      cases h
      exact ⟨d, values, rfl, hvalues, rfl⟩

lemma exists_of_eval_letIn {name : Text} {bind body : Expr}
    (h : ((letIn name bind body).eval decls call f).outcome = .ok v) :
    ∃ value, (bind.eval decls call f).outcome = .ok value ∧
      (body.eval decls call (f.bind name value)).outcome = .ok v := by
  rw [eval] at h
  exact Counted.exists_of_bind_ok h

lemma exists_of_evalAll_cons {e : Expr} {es : List Expr} {values : List Value}
    (h : (evalAll decls call f (e :: es)).outcome = .ok values) :
    ∃ value rest, (e.eval decls call f).outcome = .ok value ∧
      (evalAll decls call f es).outcome = .ok rest ∧ values = value :: rest := by
  rw [evalAll] at h
  obtain ⟨value, hvalue, h⟩ := Counted.exists_of_bind_ok h
  obtain ⟨rest, hrest, h⟩ := Counted.exists_of_bind_ok h
  cases h
  exact ⟨value, rest, hvalue, hrest, rfl⟩

end Expr

/-- An application gives a value only if a closure is applied, one more
application is allowed, and the body of the code has the value. -/
lemma Value.exists_of_apply {decls : List Decl} {limit : Int} {left : Nat}
    {callee argument v : Value} (h : (callee.apply decls limit left argument).outcome = .ok v) :
    ∃ code env k, callee = .closure code env ∧ left = k + 1 ∧
      (code.body.eval decls (Value.apply decls limit k)
        ⟨[(code.arg, argument)], [(code.env, env)]⟩).outcome = .ok v := by
  cases callee with
  | int value => exact absurd h (by simp [Value.apply, Counted.raise])
  | closure code env =>
      cases left with
      | zero =>
          rw [Value.apply] at h
          split_ifs at h <;> exact absurd h (by simp [Counted.raise])
      | succ k =>
          rw [Value.apply] at h
          split_ifs at h
          · exact absurd h (by simp [Counted.raise])
          · obtain ⟨_, -, h⟩ := Counted.exists_of_bind_ok h
            exact ⟨code, env, k, rfl, rfl, h⟩

/-- A declaration that is found is one of the name. -/
lemma mem_of_findDecl? {decls : List Decl} {name : Text} {d : Decl}
    (h : findDecl? decls name = some d) : d ∈ decls ∧ d.name = name := by
  obtain ⟨hd, hname⟩ := List.mem_filter.mp (List.mem_of_getLast? h)
  exact ⟨hd, eq_of_beq hname⟩

/-! ### What a program prints -/

/-- What a program prints when at most `limit` applications may be active at
once. -/
def Program.runUnder (p : Program) (limit : Int) : Except Stop Text :=
  match p.entry with
  | .error fault => .error (.fault fault)
  | .ok e => (((Machine.ofProgram p).setDepthLimit limit).eval e).1.map (·.render ++ "\n")

lemma Program.run_eq_runUnder (p : Program) : p.run = p.runUnder defaultDepthLimit := rfl

/-- A program that prints has an entry with a value, which it prints. -/
lemma Program.exists_of_runUnder {p : Program} {limit : Int} {text : Text}
    (h : p.runUnder limit = .ok text) :
    ∃ e v, p.entry = .ok e ∧ text = v.render ++ "\n" ∧
      (e.eval p.decls (Value.apply p.decls limit limit.toNat) .empty).outcome = .ok v := by
  rw [runUnder] at h
  cases hentry : p.entry with
  | error fault => rw [hentry] at h; exact absurd h (by simp)
  | ok e =>
      rw [hentry] at h
      dsimp only at h
      cases houtcome : (((Machine.ofProgram p).setDepthLimit limit).eval e).1 with
      | error stop => rw [houtcome] at h; exact absurd h (by simp [Except.map])
      | ok v =>
          rw [houtcome] at h
          refine ⟨e, v, rfl, ?_, houtcome⟩
          simpa [Except.map] using h.symm

end FlatClosure
