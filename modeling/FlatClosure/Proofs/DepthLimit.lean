/-
What the limit of nested applications does to an evaluation.

A larger limit changes nothing in an evaluation that the smaller one lets come to
its end, and otherwise lets it go on. Under any limit evaluation ends, after a
number of applications that the sizes of the bodies and the limit bound.

* `Counted.Continues`: one computation is another, or goes on where that one is
  cut off; `Counted.Continues.bind` composes.
* `Expr.continues_eval`, `Value.continues_apply`: evaluation and application under
  two limits.
* `Machine.depthLimit_only_cuts_off`: a machine under two limits.
* `Expr.appCount`, `mostApps`: the applications in an expression, and the most in a
  body.
* `Counted.Within`: a computation with a bounded number of applications;
  `Value.BuiltFrom`: values whose code is declared.
* `Expr.within_eval`, `Value.within_apply`: the bounds of expressions and of
  applications.
* `Machine.eval_ends_within`: evaluation ends, within the bound.
-/
import Mathlib.Algebra.Ring.GeomSum
import FlatClosure.Proofs.Basic
import FlatClosure.Proofs.Evaluation
import FlatClosure.Proofs.Stepping

namespace FlatClosure

/-! ### Two limits -/

namespace Counted

variable {α β : Type} {limit : Int} {left : Nat}

/-- A computation is cut off if it stops because of the limit. -/
def IsCutOff (limit : Int) (x : Counted α) : Prop :=
  x.outcome = .error (.error (.depthExceeded limit))

/-- A computation is the same as another, or goes on where the other is cut off
after at least `left` applications. -/
inductive Continues (limit : Int) (left : Nat) (x y : Counted α) : Prop where
  | same (hends : ¬ x.IsCutOff limit) (heq : y = x)
  | cutOff (hcut : x.IsCutOff limit) (hleft : left ≤ x.calls) (hle : x.calls ≤ y.calls)

lemma calls_le_bind (x : Counted α) (f : α → Counted β) : x.calls ≤ (x >>= f).calls := by
  cases hx : x.outcome with
  | error stop => rw [bind_of_error hx]
  | ok a =>
      rw [bind_of_ok hx]
      exact Nat.le_add_right _ _

lemma Continues.pure (a : α) : Continues limit left (pure a) (pure a) :=
  .same (by rintro ⟨⟩) rfl

lemma Continues.raise {e : RuntimeError} (he : e ≠ .depthExceeded limit) :
    Continues limit left (raise e : Counted α) (raise e) := by
  refine .same (fun hcut => he ?_) rfl
  cases hcut
  rfl

/-- Computations continue each other if their parts do: a part that is cut off cuts
off the whole. -/
lemma Continues.bind {x y : Counted α} {f g : α → Counted β} (hxy : Continues limit left x y)
    (hfg : ∀ a, Continues limit left (f a) (g a)) : Continues limit left (x >>= f) (y >>= g) := by
  cases hxy with
  | same hends heq =>
      subst heq
      cases hx : y.outcome with
      | error stop =>
          rw [bind_of_error hx, bind_of_error hx]
          refine .same (fun hcut => hends ?_) rfl
          cases hcut
          exact hx
      | ok a =>
          rw [bind_of_ok hx, bind_of_ok hx]
          cases hfg a with
          | same hends heq => exact .same hends (by rw [heq])
          | cutOff hcut hleft hle =>
              exact .cutOff hcut (hleft.trans (Nat.le_add_left _ _)) (Nat.add_le_add_left hle _)
  | cutOff hcut hleft hle =>
      rw [bind_of_error hcut]
      exact .cutOff rfl hleft (hle.trans (calls_le_bind y g))

/-- One more application is made before the computation is cut off. -/
lemma Continues.tick {x y : Counted α} (hxy : Continues limit left x y) :
    Continues limit (left + 1) (Counted.tick >>= fun _ => x) (Counted.tick >>= fun _ => y) := by
  rw [bind_of_ok rfl, bind_of_ok rfl, Nat.add_comm left]
  cases hxy with
  | same hends heq => exact .same hends (by rw [heq])
  | cutOff hcut hleft hle =>
      exact .cutOff hcut (Nat.add_le_add_left hleft _) (Nat.add_le_add_left hle _)

end Counted

open Counted (Continues)

lemma LocalFrame.continues_local? (limit : Int) (left : Nat) (f : LocalFrame) (name : Text) :
    Continues limit left (f.local? name) (f.local? name) := by
  rw [local?]
  cases f.locals.lookup name with
  | none => exact .raise (by simp)
  | some value => exact .pure value

lemma LocalFrame.continues_slot? (limit : Int) (left : Nat) (f : LocalFrame) (env : Text)
    (index : Int) : Continues limit left (f.slot? env index) (f.slot? env index) := by
  rw [slot?]
  cases f.envs.lookup env with
  | none => exact .raise (by simp)
  | some values =>
      dsimp only
      split
      · exact .pure _
      · exact .raise (by simp)

namespace Expr

variable {decls : List Decl} {call call' : Value → Value → Counted Value} {f : LocalFrame}
  {limit : Int} {left : Nat}

lemma continues_evalAll {es : List Expr}
    (hes : ∀ e ∈ es, Continues limit left (e.eval decls call f) (e.eval decls call' f)) :
    Continues limit left (evalAll decls call f es) (evalAll decls call' f es) := by
  induction es with
  | nil => exact .pure []
  | cons e es ih =>
      rw [evalAll, evalAll]
      refine (hes e List.mem_cons_self).bind fun value => ?_
      refine (ih fun e' he' => hes e' (List.mem_cons_of_mem e he')).bind fun values => ?_
      exact .pure (value :: values)

/-- **An expression under a larger limit** continues what it does under the smaller
one, if calls do. -/
lemma continues_eval (hcall : ∀ v w, Continues limit left (call v w) (call' v w)) (e : Expr)
    (f : LocalFrame) : Continues limit left (e.eval decls call f) (e.eval decls call' f) := by
  induction e using ind generalizing f with
  | num value => exact .pure _
  | ref name => exact f.continues_local? limit left name
  | slot env index => exact f.continues_slot? limit left env index
  | app func arg ih =>
      rw [eval, eval]
      refine (f.continues_local? limit left func).bind fun callee => ?_
      exact (ih f).bind fun argument => hcall callee argument
  | closure func captured ih =>
      rw [eval, eval]
      cases findDecl? decls func with
      | none => exact .raise (by simp)
      | some code =>
          refine (continues_evalAll fun c hc => ih c hc f).bind fun values => ?_
          exact .pure (Value.closure code values)
  | letIn name bind body ihb ih =>
      rw [eval, eval]
      exact (ihb f).bind fun value => ih (f.bind name value)
  | missing => exact .same (by rintro ⟨⟩) rfl

end Expr

/-! ### Applications -/

namespace Value

variable {decls : List Decl} {limit : Int} {left : Nat} {code : Decl} {env : List Value}

/-- A value is refused by every application, for a reason other than the limit, or
it is a closure with one value for each slot of its code. -/
lemma refused_or_closure (v : Value) :
    (∃ e, (∀ limit, e ≠ .depthExceeded limit) ∧
      ∀ decls limit left w, v.apply decls limit left w = .raise e) ∨
    ∃ code env, v = .closure code env ∧ (env.length : Int) = code.slotCount := by
  cases v with
  | int value =>
      refine .inl ⟨.notClosure value, fun _ => by simp, fun decls limit left w => ?_⟩
      cases left <;> rfl
  | closure code env =>
      by_cases hcount : (env.length : Int) = code.slotCount
      · exact .inr ⟨code, env, rfl, hcount⟩
      · refine .inl ⟨.captureCount code.name env.length code.slotCount, fun _ => by simp,
          fun decls limit left w => ?_⟩
        cases left <;> exact if_pos hcount

lemma apply_zero (hcount : (env.length : Int) = code.slotCount) (w : Value) :
    (closure code env).apply decls limit 0 w = .raise (.depthExceeded limit) :=
  if_neg (not_not.mpr hcount)

lemma apply_succ (hcount : (env.length : Int) = code.slotCount) (w : Value) :
    (closure code env).apply decls limit (left + 1) w = Counted.tick >>= fun _ =>
      code.body.eval decls (Value.apply decls limit left) ⟨[(code.arg, w)], [(code.env, env)]⟩ :=
  if_neg (not_not.mpr hcount)

/-- **An application under a larger limit** continues what it does under the smaller
one. -/
lemma continues_apply {limit' : Int} {left' : Nat} (hle : left ≤ left') (v w : Value) :
    Continues limit left (v.apply decls limit left w) (v.apply decls limit' left' w) := by
  -- under both limits, the body that is called may nest one application less
  induction left generalizing left' v w with
  | zero =>
      rcases v.refused_or_closure with ⟨e, he, hv⟩ | ⟨code, env, rfl, hcount⟩
      · rw [hv, hv]
        exact .raise (he limit)
      · rw [apply_zero hcount]
        exact .cutOff rfl (Nat.zero_le _) (Nat.zero_le _)
  | succ left ih =>
      obtain ⟨left', rfl⟩ : ∃ k, left' = k + 1 := ⟨left' - 1, by omega⟩
      rcases v.refused_or_closure with ⟨e, he, hv⟩ | ⟨code, env, rfl, hcount⟩
      · rw [hv, hv]
        exact .raise (he limit)
      · rw [apply_succ hcount, apply_succ hcount]
        exact (Expr.continues_eval (ih (Nat.le_of_succ_le_succ hle)) code.body _).tick

end Value

lemma Request.continues_compute (decls : List Decl) {d d' : Int} (h : d ≤ d') (r : Request) :
    Continues d d.toNat (r.compute decls d) (r.compute decls d') := by
  have hcall : ∀ v w, Continues d d.toNat (Value.apply decls d d.toNat v w)
      (Value.apply decls d' d'.toNat v w) := Value.continues_apply (Int.toNat_le_toNat h)
  cases r with
  | eval e => exact Expr.continues_eval hcall e .empty
  | apply callee argument => exact hcall callee argument

/-- **The limit only cuts off.** Take an entry expression or an application, for any
program, and two limits. Unless it is cut off under the smaller one, it ends under the
larger one with the same value, error or fault, after as many applications. If it is
cut off, then after at least as many applications as may be active at once, and under
the larger limit it makes at least as many. -/
theorem Machine.depthLimit_only_cuts_off (m : Machine) (r : Request) {d d' : Int} (h : d ≤ d') :
    let short := (m.setDepthLimit d).answer r
    let long := (m.setDepthLimit d').answer r
    (short.1 ≠ .error (.error (.depthExceeded d)) →
      long.1 = short.1 ∧ long.2.steps = short.2.steps) ∧
    (short.1 = .error (.error (.depthExceeded d)) →
      m.steps + d.toNat ≤ short.2.steps ∧ short.2.steps ≤ long.2.steps) := by
  intro short long
  have hshort : short = (m.setDepthLimit d).after (r.compute m.decls d) := answer_eq _ r
  have hlong : long = (m.setDepthLimit d').after (r.compute m.decls d') := answer_eq _ r
  rw [hshort, hlong]
  rcases r.continues_compute m.decls h with ⟨hends, heq⟩ | ⟨hcut, hleft, hle⟩
  · exact ⟨fun _ => by rw [heq]; exact ⟨rfl, rfl⟩, fun hcut => absurd hcut hends⟩
  · exact ⟨fun hends => absurd hcut hends,
      fun _ => ⟨Nat.add_le_add_left hleft _, Nat.add_le_add_left hle _⟩⟩

/-- A function is handed to another one, which applies it: this takes two active
applications. -/
theorem Machine.depthLimit_only_cuts_off_nested :
    let m : Machine := ⟨[⟨0, "call", "e", "f", .app "f" (.num 1)⟩, ⟨0, "id", "e", "x", .ref "x"⟩],
      defaultDepthLimit, 0⟩
    let r : Request := .eval (.letIn "c" (.closure "call" [])
      (.letIn "i" (.closure "id" []) (.app "c" (.ref "i"))))
    ((m.setDepthLimit 1).answer r).1 = .error (.error (.depthExceeded 1)) ∧
    ((m.setDepthLimit 1).answer r).2.steps ≤ (m.answer r).2.steps ∧
    ((m.setDepthLimit 2).answer r).1 = .ok (.int 1) ∧
    (m.answer r).1 = .ok (.int 1) ∧ (m.answer r).2.steps = 2 := by
  intro m r
  have hcut : ((m.setDepthLimit 1).answer r).1 = .error (.error (.depthExceeded 1)) := rfl
  have hvalue : (m.setDepthLimit 2).answer r = (.ok (.int 1), ⟨m.decls, 2, 2⟩) := rfl
  have hone : (1 : Int) ≤ defaultDepthLimit := by decide
  have htwo : (2 : Int) ≤ defaultDepthLimit := by decide
  obtain ⟨hsame, hsteps⟩ := (m.depthLimit_only_cuts_off r htwo).1 (by rw [hvalue]; simp)
  rw [hvalue] at hsame hsteps
  have hmore := ((m.depthLimit_only_cuts_off r hone).2 hcut).2
  exact ⟨hcut, hmore, congrArg Prod.fst hvalue, hsame, hsteps⟩

/-! ### Applications in an expression -/

namespace Expr

mutual

/-- The number of applications in an expression. -/
def appCount : Expr → Nat
  | num _ | ref _ | slot _ _ | missing => 0
  | app _ arg => arg.appCount + 1
  | closure _ captured => appCountAll captured
  | letIn _ bind body => bind.appCount + body.appCount

/-- The number of applications in expressions. -/
def appCountAll : List Expr → Nat
  | [] => 0
  | e :: es => e.appCount + appCountAll es

end

end Expr

/-- The largest number of applications in the body of a declaration. -/
def mostApps (decls : List Decl) : Nat := (decls.map fun d => d.body.appCount).foldr max 0

lemma appCount_le_mostApps {decls : List Decl} {d : Decl} (hd : d ∈ decls) :
    d.body.appCount ≤ mostApps decls := by
  induction decls with
  | nil => exact absurd hd List.not_mem_nil
  | cons d' decls ih =>
      rcases List.mem_cons.mp hd with rfl | hd
      · exact Nat.le_max_left _ _
      · exact (ih hd).trans (Nat.le_max_right _ _)

/-! ### Bounded computations -/

/-- A value is built from declarations if the code of every closure in it is one of
them. -/
inductive Value.BuiltFrom (decls : List Decl) : Value → Prop where
  | int (value : Int32) : BuiltFrom decls (.int value)
  | closure {code : Decl} {env : List Value} (hcode : code ∈ decls)
      (henv : ∀ v ∈ env, BuiltFrom decls v) : BuiltFrom decls (.closure code env)

/-- A frame whose values are built from declarations. -/
structure LocalFrame.BuiltFrom (decls : List Decl) (f : LocalFrame) : Prop where
  locals : ∀ p ∈ f.locals, p.2.BuiltFrom decls
  envs : ∀ p ∈ f.envs, ∀ v ∈ p.2, v.BuiltFrom decls

namespace Counted

variable {α β : Type} {P : α → Prop} {Q : β → Prop} {n k : Nat}

/-- A computation makes at most `n` applications, and what it gives has the property
`P`. -/
structure Within (P : α → Prop) (n : Nat) (x : Counted α) : Prop where
  calls_le : x.calls ≤ n
  result : ∀ a, x.outcome = .ok a → P a

lemma Within.pure {a : α} (h : P a) : Within P 0 (pure a) := by
  refine ⟨le_rfl, fun b hb => ?_⟩
  cases hb
  exact h

lemma Within.stop {stop : Stop} : Within P 0 ⟨.error stop, 0⟩ := ⟨le_rfl, fun _ h => by cases h⟩

lemma Within.mono {x : Counted α} (h : Within P n x) (hle : n ≤ k) : Within P k x :=
  ⟨h.calls_le.trans hle, h.result⟩

/-- Computations in sequence make the applications of both. -/
lemma Within.bind {x : Counted α} {f : α → Counted β} (hx : Within P n x)
    (hf : ∀ a, P a → Within Q k (f a)) : Within Q (n + k) (x >>= f) := by
  cases houtcome : x.outcome with
  | error stop =>
      rw [bind_of_error houtcome]
      exact ⟨hx.calls_le.trans (Nat.le_add_right _ _), fun _ h => by cases h⟩
  | ok a =>
      have hfa := hf a (hx.result a houtcome)
      rw [bind_of_ok houtcome]
      exact ⟨Nat.add_le_add hx.calls_le hfa.calls_le, hfa.result⟩

end Counted

open Counted (Within)

section

variable {decls : List Decl} {f : LocalFrame}

lemma LocalFrame.BuiltFrom.bind (hf : f.BuiltFrom decls) (name : Text) {v : Value}
    (hv : v.BuiltFrom decls) : (f.bind name v).BuiltFrom decls :=
  ⟨List.forall_mem_cons.mpr ⟨hv, hf.locals⟩, hf.envs⟩

lemma LocalFrame.BuiltFrom.within_local? (hf : f.BuiltFrom decls) (name : Text) :
    Within (Value.BuiltFrom decls) 0 (f.local? name) := by
  rw [local?]
  cases hlook : f.locals.lookup name with
  | none => exact .stop
  | some value => exact .pure (hf.locals _ (mem_of_lookup hlook))

lemma LocalFrame.BuiltFrom.within_slot? (hf : f.BuiltFrom decls) (env : Text) (index : Int) :
    Within (Value.BuiltFrom decls) 0 (f.slot? env index) := by
  rw [slot?]
  cases hlook : f.envs.lookup env with
  | none => exact .stop
  | some values =>
      dsimp only
      split
      next value hvalue =>
        refine .pure (hf.envs _ (mem_of_lookup hlook) value ?_)
        split_ifs at hvalue
        exact List.mem_of_getElem? hvalue
      next => exact .stop

namespace Expr

variable {call : Value → Value → Counted Value} {k : Nat}

lemma within_evalAll {es : List Expr}
    (hes : ∀ e ∈ es, Within (Value.BuiltFrom decls) (e.appCount * k) (e.eval decls call f)) :
    Within (fun values => ∀ v ∈ values, v.BuiltFrom decls) (appCountAll es * k)
      (evalAll decls call f es) := by
  induction es with
  | nil =>
      rw [appCountAll, Nat.zero_mul]
      exact .pure (List.forall_mem_nil _)
  | cons e es ih =>
      rw [appCountAll, evalAll, Nat.add_mul]
      refine (hes e List.mem_cons_self).bind fun value hvalue => ?_
      have hrest := ih fun e' he' => hes e' (List.mem_cons_of_mem e he')
      refine hrest.bind (k := 0) fun values hvalues => ?_
      exact .pure (List.forall_mem_cons.mpr ⟨hvalue, hvalues⟩)

/-- **An expression makes at most `k` applications for each of its own**, if every
call makes at most `k`. -/
lemma within_eval (hcall : ∀ v w, v.BuiltFrom decls → w.BuiltFrom decls →
      Within (Value.BuiltFrom decls) k (call v w)) (e : Expr) (hf : f.BuiltFrom decls) :
    Within (Value.BuiltFrom decls) (e.appCount * k) (e.eval decls call f) := by
  induction e using ind generalizing f with
  | num value =>
      rw [appCount, Nat.zero_mul]
      exact .pure (.int _)
  | ref name =>
      rw [appCount, Nat.zero_mul]
      exact hf.within_local? name
  | slot env index =>
      rw [appCount, Nat.zero_mul]
      exact hf.within_slot? env index
  | app func arg ih =>
      rw [appCount, Nat.succ_mul, ← Nat.zero_add (_ + k), eval]
      refine (hf.within_local? func).bind fun callee hcallee => ?_
      exact (ih hf).bind fun argument hargument => hcall callee argument hcallee hargument
  | closure func captured ih =>
      rw [appCount, eval]
      cases hfind : findDecl? decls func with
      | none => exact Within.stop.mono (Nat.zero_le _)
      | some code =>
          refine (within_evalAll fun c hc => ih c hc hf).bind (k := 0) fun values hvalues => ?_
          exact .pure (.closure (mem_of_findDecl? hfind).1 hvalues)
  | letIn name bind body ihb ih =>
      rw [appCount, Nat.add_mul, eval]
      exact (ihb hf).bind fun value hvalue => ih (hf.bind name hvalue)
  | missing => exact Within.stop.mono (Nat.zero_le _)

end Expr

/-- **An application makes at most one application of its own and those of a
body.** -/
lemma Value.within_apply (limit : Int) (left : Nat) {v w : Value} (hv : v.BuiltFrom decls)
    (hw : w.BuiltFrom decls) :
    Within (Value.BuiltFrom decls) (∑ i ∈ Finset.range left, mostApps decls ^ i)
      (v.apply decls limit left w) := by
  induction left generalizing v w with
  | zero =>
      rcases v.refused_or_closure with ⟨e, -, hrefused⟩ | ⟨code, env, rfl, hcount⟩
      · rw [hrefused]
        exact .stop
      · rw [apply_zero hcount]
        exact .stop
  | succ left ih =>
      rcases v.refused_or_closure with ⟨e, -, hrefused⟩ | ⟨code, env, rfl, hcount⟩
      · rw [hrefused]
        exact Within.stop.mono (Nat.zero_le _)
      · cases hv with
        | closure hcode henv =>
            have hframe : LocalFrame.BuiltFrom decls ⟨[(code.arg, w)], [(code.env, env)]⟩ :=
              ⟨List.forall_mem_singleton.mpr hw, List.forall_mem_singleton.mpr henv⟩
            have hbody := Expr.within_eval (fun v w => ih) code.body hframe
            have htick : Within (fun _ => True) 1 Counted.tick := ⟨le_rfl, fun _ _ => trivial⟩
            rw [apply_succ hcount, geom_sum_succ, Nat.add_comm]
            refine htick.bind fun _ _ => hbody.mono ?_
            exact Nat.mul_le_mul_right _ (appCount_le_mostApps hcode)

end

/-! ### Evaluation ends -/

/-- From a state that comes to an end no steps go on for ever. -/
lemma Running.Steps.not_forever {s t : Running} (h : s.Steps t) (hend : t.step? = none)
    (run : ℕ → Running) (hstart : run 0 = s) : ¬ ∀ i, (run i).step? = some (run (i + 1)) := by
  intro hrun
  induction h using Relation.ReflTransGen.head_induction_on generalizing run with
  | refl =>
      have hfirst := hrun 0
      rw [hstart, hend] at hfirst
      cases hfirst
  | head hstep _ ih =>
      have hfirst := hrun 0
      rw [hstart, hstep] at hfirst
      exact ih (fun i => run (i + 1)) (Option.some.inj hfirst).symm fun i => hrun (i + 1)

/-- **Evaluation ends after a bounded number of applications**, for any declarations,
well formed or not, and any limit. Work on an entry expression step by step cannot go on
for ever; it ends with the outcome of evaluation and outside of all applications. With
`a` applications in the expression, at most `A` in a body and `d` active at once, no more
than `a * (1 + A + … + A ^ (d - 1))` are made; a negative limit counts as zero. -/
theorem Machine.eval_ends_within (m : Machine) (e : Expr) :
    (∀ s, Running.Steps ⟨⟨m, 0⟩, .eval e .empty, []⟩ s ∧ s.step? = none ↔
      s = ⟨⟨(m.eval e).2, 0⟩, .ended (m.eval e).1, []⟩) ∧
    (¬ ∃ run : ℕ → Running, run 0 = ⟨⟨m, 0⟩, .eval e .empty, []⟩ ∧
      ∀ i, (run i).step? = some (run (i + 1))) ∧
    (m.eval e).2.steps ≤ m.steps +
      e.appCount * ∑ i ∈ Finset.range m.depthLimit.toNat, mostApps m.decls ^ i := by
  have hends : ∀ s, Running.Steps ⟨⟨m, 0⟩, .eval e .empty, []⟩ s ∧ s.step? = none ↔
      s = ⟨⟨(m.eval e).2, 0⟩, .ended (m.eval e).1, []⟩ :=
    fun s => Machine.steps_ended_iff (r := .eval e)
  refine ⟨hends, ?_, ?_⟩
  · rintro ⟨run, hstart, hrun⟩
    obtain ⟨hsteps, hend⟩ := (hends _).mpr rfl
    exact hsteps.not_forever hend run hstart hrun
  · have hempty : LocalFrame.BuiltFrom m.decls .empty :=
      ⟨List.forall_mem_nil _, List.forall_mem_nil _⟩
    have hwithin := Expr.within_eval
      (fun v w hv hw => Value.within_apply m.depthLimit m.depthLimit.toNat hv hw) e hempty
    exact Nat.add_le_add_left hwithin.calls_le m.steps

-- the bound is reached where each body calls the next one twice
example :
    let twice (func : Text) : Expr := .letIn "f" (.closure func [])
      (.letIn "y" (.app "f" (.ref "x")) (.app "f" (.ref "y")))
    let decls : List Decl := [⟨0, "inner", "e", "x", .ref "x"⟩,
      ⟨0, "middle", "e", "x", twice "inner"⟩, ⟨0, "outer", "e", "x", twice "middle"⟩]
    let e : Expr := .letIn "f" (.closure "outer" []) (.app "f" (.num 0))
    ((Machine.mk decls 3 0).eval e).2.steps =
      e.appCount * ∑ i ∈ Finset.range 3, mostApps decls ^ i := by
  decide +kernel

end FlatClosure
