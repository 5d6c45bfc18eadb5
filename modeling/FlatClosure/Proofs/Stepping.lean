/-
Evaluation in single steps, with a counter of the active applications.

`Machine` keeps no such counter: each call is told how many further ones may be
nested into it. A tracked machine keeps it. It works in steps over a stack of
what is left to do, raises the counter when an application is entered, and
lowers it when the application is left, with a value or because of a stop.

* `Tracked`, `Running`, `Running.step?`: machines with a counter and their steps.
* `Running.Moves`: what one step does to the counter; `Running.Balanced`: the
  counter is the number of applications on the stack, and within the limit.
  `Running.Balanced.step` and `.steps`: one step and any number of them keep it.
* `Tracked.computes_eval`, `Tracked.computes_apply`: the steps of an expression
  and of an application come to the outcome that evaluation has, and count as
  many applications.
* `Event`, `Tracked.Performs`, `Machine.perform`: what a machine is after a
  sequence of evaluations, applications and changes of its limit.
* `Machine.answers_as_fresh`: nothing of the sequence is left but the count.
-/
import Mathlib.Logic.Relation
import FlatClosure.Machine
import FlatClosure.Proofs.WellFormed

namespace FlatClosure

open Relation (ReflTransGen)

/-! ### Steps -/

/-- A machine with the number of applications that are active. -/
structure Tracked extends Machine where
  depth : Int

namespace Tracked

/-- The machine inside one more application. -/
def enter (m : Tracked) : Tracked := { m with depth := m.depth + 1, steps := m.steps + 1 }

/-- The machine outside the innermost application. -/
def leave (m : Tracked) : Tracked := { m with depth := m.depth - 1 }

/-- The machine with a number of applications counted. -/
def count (m : Tracked) (n : Nat) : Tracked := { m with steps := m.steps + n }

@[simp] lemma depth_count (m : Tracked) (n : Nat) : (m.count n).depth = m.depth := rfl

@[simp] lemma depthLimit_count (m : Tracked) (n : Nat) :
    (m.count n).depthLimit = m.depthLimit := rfl

@[simp] lemma decls_count (m : Tracked) (n : Nat) : (m.count n).decls = m.decls := rfl

lemma count_count (m : Tracked) (j k : Nat) : (m.count j).count k = m.count (j + k) := by
  simp [count, Nat.add_assoc]

end Tracked

/-- What is left to do with an outcome. -/
inductive Pending where
  /-- Apply `callee` to it. -/
  | argument (callee : Value)
  /-- Capture it behind the values in `done`, and then the values of `rest`. -/
  | captured (code : Decl) (done : List Value) (rest : List Expr) (f : LocalFrame)
  /-- Bind it to a name and evaluate `body`. -/
  | body (name : Text) (body : Expr) (f : LocalFrame)
  /-- Leave an application with it. -/
  | leave

/-- The number of applications that are still to be left. -/
def Pending.active : List Pending → Nat
  | [] => 0
  | .leave :: k => active k + 1
  | _ :: k => active k

/-- What is being done. -/
inductive Control where
  | eval (e : Expr) (f : LocalFrame)
  /-- The values of `rest` are captured behind those in `done`. -/
  | capture (code : Decl) (done : List Value) (rest : List Expr) (f : LocalFrame)
  | apply (callee argument : Value)
  /-- There is an outcome for what is pending. -/
  | ended (outcome : Except Stop Value)

/-- A tracked machine at work. -/
structure Running where
  machine : Tracked
  control : Control
  /-- What is left to do, the innermost first. -/
  pending : List Pending

namespace Running

/-- The first step of an evaluation. -/
def evalStep (m : Tracked) (f : LocalFrame) (k : List Pending) : Expr → Running
  | .num value => ⟨m, .ended (.ok (.int value.toInt32)), k⟩
  | .ref name => ⟨m, .ended (f.local? name).outcome, k⟩
  | .slot env index => ⟨m, .ended (f.slot? env index).outcome, k⟩
  | .app func arg =>
    match (f.local? func).outcome with
    | .error stop => ⟨m, .ended (.error stop), k⟩
    | .ok callee => ⟨m, .eval arg f, .argument callee :: k⟩
  | .closure func captured =>
    match findDecl? m.decls func with
    | none => ⟨m, .ended (.error (.error (.undeclared func))), k⟩
    | some code => ⟨m, .capture code [] captured f, k⟩
  | .letIn name bind body => ⟨m, .eval bind f, .body name body f :: k⟩
  | .missing => ⟨m, .ended (.error (.fault .missingExpr)), k⟩

/-- The first step of an application. -/
def applyStep (m : Tracked) (callee argument : Value) (k : List Pending) : Running :=
  match callee with
  | .int value => ⟨m, .ended (.error (.error (.notClosure value))), k⟩
  | .closure code env =>
    if (env.length : Int) ≠ code.slotCount then
      ⟨m, .ended (.error (.error (.captureCount code.name env.length code.slotCount))), k⟩
    else if m.depthLimit ≤ m.depth then
      ⟨m, .ended (.error (.error (.depthExceeded m.depthLimit))), k⟩
    else
      ⟨m.enter, .eval code.body ⟨[(code.arg, argument)], [(code.env, env)]⟩, .leave :: k⟩

/-- What becomes of an outcome. A stop passes over all that is pending, except
that applications are left. -/
def resume? (m : Tracked) : Except Stop Value → List Pending → Option Running
  | _, [] => none
  | outcome, .leave :: k => some ⟨m.leave, .ended outcome, k⟩
  | .error stop, _ :: k => some ⟨m, .ended (.error stop), k⟩
  | .ok v, .argument callee :: k => some ⟨m, .apply callee v, k⟩
  | .ok v, .captured code done rest f :: k => some ⟨m, .capture code (done ++ [v]) rest f, k⟩
  | .ok v, .body name body f :: k => some ⟨m, .eval body (f.bind name v), k⟩

/-- The next step; there is none once an outcome meets nothing pending. -/
def step? : Running → Option Running
  | ⟨m, .eval e f, k⟩ => some (evalStep m f k e)
  | ⟨m, .capture code done [] _, k⟩ => some ⟨m, .ended (.ok (.closure code done)), k⟩
  | ⟨m, .capture code done (e :: rest) f, k⟩ => some ⟨m, .eval e f, .captured code done rest f :: k⟩
  | ⟨m, .apply callee argument, k⟩ => some (applyStep m callee argument k)
  | ⟨m, .ended outcome, k⟩ => resume? m outcome k

/-- Any number of steps. -/
abbrev Steps : Running → Running → Prop := ReflTransGen fun s s' => s.step? = some s'

/-! ### The counter -/

/-- The number of applications that are still to be left. -/
def active (s : Running) : Nat := Pending.active s.pending

/-- What a step does to the counter and to the applications on the stack. -/
inductive Moves (s s' : Running) : Prop where
  | stay (hmachine : s'.machine = s.machine) (hactive : s'.active = s.active)
  | enter (hlimit : s.machine.depth < s.machine.depthLimit)
      (hmachine : s'.machine = s.machine.enter) (hactive : s'.active = s.active + 1)
  | leave (hmachine : s'.machine = s.machine.leave) (hactive : s'.active + 1 = s.active)

lemma moves_evalStep (m : Tracked) (f : LocalFrame) (k : List Pending) (e : Expr) :
    Moves ⟨m, .eval e f, k⟩ (evalStep m f k e) := by
  cases e with
  | app func arg =>
      rw [evalStep]
      cases (f.local? func).outcome with
      | error stop => exact .stay rfl rfl
      | ok callee => exact .stay rfl rfl
  | closure func captured =>
      rw [evalStep]
      cases findDecl? m.decls func with
      | none => exact .stay rfl rfl
      | some code => exact .stay rfl rfl
  | _ => exact .stay rfl rfl

lemma moves_applyStep (m : Tracked) (callee argument : Value) (k : List Pending) :
    Moves ⟨m, .apply callee argument, k⟩ (applyStep m callee argument k) := by
  cases callee with
  | int value => exact .stay rfl rfl
  | closure code env =>
      rw [applyStep]
      split_ifs with hcount hlimit
      · exact .stay rfl rfl
      · exact .stay rfl rfl
      · exact .enter (Int.not_le.mp hlimit) rfl rfl

lemma moves_of_resume? {m : Tracked} {outcome : Except Stop Value} {k : List Pending}
    {s : Running} (h : resume? m outcome k = some s) : Moves ⟨m, .ended outcome, k⟩ s := by
  cases k with
  | nil => cases outcome <;> cases h
  | cons pending k =>
      cases pending with
      | leave => cases outcome <;> (cases h; exact .leave rfl rfl)
      | _ => cases outcome <;> (cases h; exact .stay rfl rfl)

/-- **What one step does to the counter.** -/
lemma moves_of_step? {s s' : Running} (h : s.step? = some s') : s.Moves s' := by
  obtain ⟨m, control, k⟩ := s
  cases control with
  | eval e f =>
      cases h
      exact moves_evalStep m f k e
  | capture code done rest f =>
      cases rest with
      | nil => cases h; exact .stay rfl rfl
      | cons e rest => cases h; exact .stay rfl rfl
  | apply callee argument =>
      cases h
      exact moves_applyStep m callee argument k
  | ended outcome => exact moves_of_resume? h

/-- The counter is the number of applications that are still to be left, and not
above the limit. -/
structure Balanced (limit : Int) (s : Running) : Prop where
  depthLimit_eq : s.machine.depthLimit = limit
  depth_eq : s.machine.depth = s.active
  depth_le : s.machine.depth ≤ max 0 limit

lemma Balanced.step {limit : Int} {s s' : Running} (hs : s.Balanced limit)
    (h : s.step? = some s') : s'.Balanced limit := by
  obtain ⟨hlimit, hdepth, hle⟩ := hs
  cases moves_of_step? h with
  | stay hmachine hactive =>
      rw [← hmachine] at hlimit hdepth hle
      exact ⟨hlimit, hactive ▸ hdepth, hle⟩
  | enter hlt hmachine hactive =>
      have hdepth' : s'.machine.depth = s.machine.depth + 1 := by rw [hmachine]; rfl
      refine ⟨?_, by omega, by omega⟩
      rw [hmachine]
      exact hlimit
  | leave hmachine hactive =>
      have hdepth' : s'.machine.depth = s.machine.depth - 1 := by rw [hmachine]; rfl
      refine ⟨?_, by omega, by omega⟩
      rw [hmachine]
      exact hlimit

/-- **The counter stays balanced over any number of steps.** -/
lemma Balanced.steps {limit : Int} {s s' : Running} (hs : s.Balanced limit) (h : s.Steps s') :
    s'.Balanced limit := by
  induction h with
  | refl => exact hs
  | tail _ hstep ih => exact ih.step hstep

lemma balanced_start {m : Tracked} (hm : m.depth = 0) (control : Control) :
    Balanced m.depthLimit ⟨m, control, []⟩ :=
  ⟨rfl, hm, hm.trans_le (Int.le_max_left 0 _)⟩

/-- A state without a next step is the only one of this kind that can be
reached. -/
lemma Steps.eq_of_ended {s t u : Running} (ht : s.Steps t) (hu : s.Steps u)
    (htend : t.step? = none) (huend : u.step? = none) : t = u := by
  have hunique : Relator.RightUnique fun s s' : Running => s.step? = some s' :=
    fun _ _ _ h h' => Option.some.inj (h.symm.trans h')
  rcases ReflTransGen.total_of_right_unique hunique ht hu with h | h
  · rcases h.cases_head with rfl | ⟨v, hv, -⟩
    · rfl
    · exact absurd (htend.symm.trans hv) (by simp)
  · rcases h.cases_head with rfl | ⟨v, hv, -⟩
    · rfl
    · exact absurd (huend.symm.trans hv) (by simp)

end Running

/-! ### Steps and evaluation -/

lemma LocalFrame.calls_local? (f : LocalFrame) (name : Text) : (f.local? name).calls = 0 := by
  rw [local?]
  cases f.locals.lookup name <;> rfl

lemma LocalFrame.calls_slot? (f : LocalFrame) (env : Text) (index : Int) :
    (f.slot? env index).calls = 0 := by
  rw [slot?]
  cases f.envs.lookup env with
  | none => rfl
  | some values =>
      dsimp only
      split <;> rfl

namespace Counted

variable {α β γ : Type}

lemma bind_of_error {x : Counted α} {stop : Stop} (h : x.outcome = .error stop)
    (g : α → Counted β) : (x >>= g) = ⟨.error stop, x.calls⟩ := by
  obtain ⟨outcome, n⟩ := x
  cases h
  rfl

lemma bind_of_ok {x : Counted α} {a : α} (h : x.outcome = .ok a) (g : α → Counted β) :
    (x >>= g) = ⟨(g a).outcome, x.calls + (g a).calls⟩ := by
  obtain ⟨outcome, n⟩ := x
  cases h
  rfl

lemma bind_assoc (x : Counted α) (g : α → Counted β) (h : β → Counted γ) :
    (x >>= g >>= h) = x >>= fun a => g a >>= h := by
  cases hx : x.outcome with
  | error stop => rw [bind_of_error hx, bind_of_error hx, bind_of_error rfl]
  | ok a =>
      rw [bind_of_ok hx, bind_of_ok hx]
      cases hg : (g a).outcome with
      | error stop => rw [bind_of_error rfl, bind_of_error hg]
      | ok b =>
          rw [bind_of_ok rfl, bind_of_ok hg]
          exact congrArg (Counted.mk _) (Nat.add_assoc _ _ _)

end Counted

namespace Tracked

open Running

/-- Whether the steps from a control come to the outcome of a computation and
count its applications, whatever is pending. -/
def Computes (m : Tracked) (control : Control) (c : Counted Value) : Prop :=
  ∀ k, Steps ⟨m, control, k⟩ ⟨m.count c.calls, .ended c.outcome, k⟩

variable {m : Tracked} {f : LocalFrame} {call : Value → Value → Counted Value}

/-- One step to an outcome without any application. -/
lemma Computes.of_step {control : Control} {c : Counted Value} (hcalls : c.calls = 0)
    (h : ∀ k, step? ⟨m, control, k⟩ = some ⟨m, .ended c.outcome, k⟩) : m.Computes control c := by
  intro k
  rw [hcalls]
  exact .single (h k)

/-- An outcome is computed for what is pending, and what is pending goes on with
it. -/
lemma Computes.steps_bind {control : Control} {pending : Pending} {x : Counted Value}
    {g : Value → Counted Value} {next : Value → Control} (hx : m.Computes control x)
    (hok : ∀ m v k, resume? m (.ok v) (pending :: k) = some ⟨m, next v, k⟩)
    (herror : ∀ m stop k,
      resume? m (.error stop) (pending :: k) = some ⟨m, .ended (.error stop), k⟩)
    (hg : ∀ v, (m.count x.calls).Computes (next v) (g v)) (k : List Pending) :
    Steps ⟨m, control, pending :: k⟩ ⟨m.count (x >>= g).calls, .ended (x >>= g).outcome, k⟩ := by
  have hfirst := hx (pending :: k)
  cases houtcome : x.outcome with
  | error stop =>
      rw [Counted.bind_of_error houtcome]
      rw [houtcome] at hfirst
      exact hfirst.tail (herror _ stop k)
  | ok v =>
      rw [Counted.bind_of_ok houtcome, ← count_count]
      rw [houtcome] at hfirst
      exact (hfirst.tail (hok _ v k)).trans (hg v k)

/-- Captured expressions are evaluated one after the other. -/
lemma computes_capture {es : List Expr} (hes : ∀ e ∈ es, ∀ n,
      (m.count n).Computes (.eval e f) (e.eval m.decls call f)) (code : Decl) (n : Nat)
    (done : List Value) :
    (m.count n).Computes (.capture code done es f)
      (Expr.evalAll m.decls call f es >>= fun values => pure (.closure code (done ++ values))) := by
  induction es generalizing n done with
  | nil =>
      have hvalue : (Expr.evalAll m.decls call f [] >>= fun values =>
          pure (.closure code (done ++ values)) : Counted Value) =
          ⟨.ok (.closure code done), 0⟩ := by
        rw [Expr.evalAll, Counted.bind_of_ok rfl, List.append_nil]
        rfl
      rw [hvalue]
      exact .of_step rfl fun k => rfl
  | cons e es ih =>
      intro k
      have hfirst := hes e List.mem_cons_self n
      have hrest := ih fun e' he' => hes e' (List.mem_cons_of_mem e he')
      rw [Expr.evalAll, Counted.bind_assoc]
      refine .head (rfl : step? _ = some ⟨_, .eval e f, .captured code done es f :: k⟩) ?_
      refine hfirst.steps_bind (fun _ _ _ => rfl) (fun _ _ _ => rfl) (fun v => ?_) k
      rw [count_count, Counted.bind_assoc]
      have h := hrest (n + (e.eval m.decls call f).calls) (done ++ [v])
      simp only [List.append_assoc, List.singleton_append] at h
      exact h

/-- **The steps of an expression come to its value**, if those of applications
do. -/
lemma computes_eval (hcall : ∀ n v w, (m.count n).Computes (.apply v w) (call v w)) (e : Expr)
    (f : LocalFrame) (n : Nat) : (m.count n).Computes (.eval e f) (e.eval m.decls call f) := by
  induction e using Expr.ind generalizing f n with
  | num value => exact .of_step rfl fun k => rfl
  | ref name => exact .of_step (f.calls_local? name) fun k => rfl
  | slot env index => exact .of_step (f.calls_slot? env index) fun k => rfl
  | app func arg ih =>
      cases hlocal : (f.local? func).outcome with
      | error stop =>
          refine .of_step ?_ fun k => ?_
          · rw [Expr.eval, Counted.bind_of_error hlocal, f.calls_local?]
          · rw [step?, evalStep, hlocal, Expr.eval, Counted.bind_of_error hlocal]
      | ok callee =>
          intro k
          have hstep : step? ⟨m.count n, .eval (.app func arg) f, k⟩ =
              some ⟨m.count n, .eval arg f, .argument callee :: k⟩ := by
            rw [step?, evalStep, hlocal]
          rw [Expr.eval, Counted.bind_of_ok hlocal, f.calls_local?, Nat.zero_add]
          refine .head hstep
            ((ih f n).steps_bind (fun _ _ _ => rfl) (fun _ _ _ => rfl) (fun v => ?_) k)
          rw [count_count]
          exact hcall _ callee v
  | closure func captured ih =>
      cases hfind : findDecl? m.decls func with
      | none =>
          refine .of_step ?_ fun k => ?_
          · rw [Expr.eval, hfind]
            rfl
          · rw [step?, evalStep, decls_count, hfind, Expr.eval, hfind]
            rfl
      | some code =>
          intro k
          have hstep : step? ⟨m.count n, .eval (.closure func captured) f, k⟩ =
              some ⟨m.count n, .capture code [] captured f, k⟩ := by
            rw [step?, evalStep, decls_count, hfind]
          rw [Expr.eval, hfind]
          exact .head hstep (computes_capture (fun c hc n => ih c hc f n) code n [] k)
  | letIn name bind body ihb ih =>
      intro k
      refine .head (rfl : step? _ = some ⟨_, .eval bind f, .body name body f :: k⟩) ?_
      refine (ihb f n).steps_bind (fun _ _ _ => rfl) (fun _ _ _ => rfl) (fun v => ?_) k
      rw [count_count]
      exact ih (f.bind name v) _
  | missing => exact .of_step rfl fun k => rfl

/-- A call lowers the counter again and counts one application more than its
body. -/
lemma leave_count_enter (m : Tracked) (n : Nat) :
    (m.enter.count n).leave = m.count (Counted.tick.calls + n) := by
  simp [leave, count, enter, Counted.tick, Nat.add_assoc]

/-- **The steps of an application come to its value**, if as many further ones
may be nested as the counter leaves room for. -/
lemma computes_apply (left : Nat) (hleft : (m.depthLimit - m.depth).toNat = left)
    (v w : Value) : m.Computes (.apply v w) (v.apply m.decls m.depthLimit left w) := by
  -- the bodies that are called run with the counter one higher
  induction left generalizing m v w with
  | zero =>
      cases v with
      | int value => exact .of_step rfl fun k => rfl
      | closure code env =>
          have hlimit : m.depthLimit ≤ m.depth := by omega
          rw [Value.apply]
          split_ifs with hcount
          · exact .of_step rfl fun k => by rw [step?, applyStep, if_pos hcount]; rfl
          · exact .of_step rfl fun k => by rw [step?, applyStep, if_neg hcount, if_pos hlimit]; rfl
  | succ left ih =>
      cases v with
      | int value => exact .of_step rfl fun k => rfl
      | closure code env =>
          have hlimit : ¬ m.depthLimit ≤ m.depth := by omega
          rw [Value.apply]
          split_ifs with hcount
          · exact .of_step rfl fun k => by rw [step?, applyStep, if_pos hcount]; rfl
          · intro k
            have hstep : step? ⟨m, .apply (.closure code env) w, k⟩ = some ⟨m.enter,
                .eval code.body ⟨[(code.arg, w)], [(code.env, env)]⟩, .leave :: k⟩ := by
              rw [step?, applyStep, if_neg hcount, if_neg hlimit]
            have hroom : (m.depthLimit - (m.depth + 1)).toNat = left := by omega
            have hcall : ∀ n v w, (m.enter.count n).Computes (.apply v w)
                (Value.apply m.decls m.depthLimit left v w) := fun n v w => ih hroom v w
            have hbody := computes_eval hcall code.body ⟨[(code.arg, w)], [(code.env, env)]⟩ 0
            rw [Counted.bind_of_ok rfl]
            dsimp only
            rw [← leave_count_enter]
            exact .head hstep ((hbody (.leave :: k)).tail rfl)

end Tracked

/-! ### Sequences of requests -/

/-- What a machine can be asked for. -/
inductive Request where
  /-- The value of an entry expression. -/
  | eval (e : Expr)
  /-- The value of an application. -/
  | apply (callee argument : Value)

/-- How work on a request begins. -/
def Request.control : Request → Control
  | eval e => .eval e .empty
  | apply callee argument => .apply callee argument

/-- What happens to a machine: a request, or a change of its limit. -/
inductive Event where
  | request (r : Request)
  | setDepthLimit (limit : Int)

namespace Machine

/-- The outcome of a request and the machine after it. -/
def answer (m : Machine) : Request → Except Stop Value × Machine
  | .eval e => m.eval e
  | .apply callee argument => m.apply callee argument

/-- The machine after an event. -/
def handle (m : Machine) : Event → Machine
  | .request r => (m.answer r).2
  | .setDepthLimit limit => m.setDepthLimit limit

/-- The machine after a sequence of events. -/
def perform (m : Machine) (events : List Event) : Machine := events.foldl handle m

end Machine

namespace Tracked

/-- What a tracked machine can be after an event. Work on a request goes on as
long as there is a next step. -/
inductive Handles (m : Tracked) : Event → Tracked → Prop where
  | request {r : Request} {s : Running} (hsteps : Running.Steps ⟨m, r.control, []⟩ s)
      (hend : s.step? = none) : Handles m (.request r) s.machine
  | setDepthLimit (limit : Int) :
      Handles m (.setDepthLimit limit) { m with depthLimit := limit }

/-- What a tracked machine can be after a sequence of events. -/
inductive Performs : Tracked → List Event → Tracked → Prop where
  | nil (m : Tracked) : Performs m [] m
  | cons {m m' m'' : Tracked} {event : Event} {events : List Event} (hevent : m.Handles event m')
      (hevents : m'.Performs events m'') : Performs m (event :: events) m''

end Tracked

/-- The computation of a request under a limit. -/
def Request.compute (decls : List Decl) (limit : Int) : Request → Counted Value
  | eval e => e.eval decls (Value.apply decls limit limit.toNat) .empty
  | apply callee argument => callee.apply decls limit limit.toNat argument

lemma Machine.answer_eq (m : Machine) (r : Request) :
    m.answer r = m.after (r.compute m.decls m.depthLimit) := by
  cases r <;> rfl

lemma Tracked.computes_request (m : Machine) (r : Request) :
    Tracked.Computes ⟨m, 0⟩ r.control (r.compute m.decls m.depthLimit) := by
  have hcall : ∀ n v w, (Tracked.count ⟨m, 0⟩ n).Computes (.apply v w)
      (Value.apply m.decls m.depthLimit m.depthLimit.toNat v w) := fun n v w =>
    Tracked.computes_apply m.depthLimit.toNat (by simp) v w
  cases r with
  | eval e => exact Tracked.computes_eval hcall e .empty 0
  | apply callee argument => exact hcall 0 callee argument

/-- **Work on a request ends**, in one way only: with the outcome and the machine
that evaluation gives, and outside of all applications. -/
lemma Machine.steps_ended_iff {m : Machine} {r : Request} {s : Running} :
    Running.Steps ⟨⟨m, 0⟩, r.control, []⟩ s ∧ s.step? = none ↔
      s = ⟨⟨(m.answer r).2, 0⟩, .ended (m.answer r).1, []⟩ := by
  have hsteps := Tracked.computes_request m r []
  have hend : Running.step? ⟨⟨(m.answer r).2, 0⟩, .ended (m.answer r).1, []⟩ = none := by
    cases (m.answer r).1 <;> rfl
  rw [Machine.answer_eq] at hend ⊢
  constructor
  · rintro ⟨hs, hsend⟩
    exact hs.eq_of_ended hsteps hsend hend
  · rintro rfl
    exact ⟨hsteps, hend⟩

lemma Tracked.handles_iff {m : Machine} {event : Event} {m' : Tracked} :
    Tracked.Handles ⟨m, 0⟩ event m' ↔ m' = ⟨m.handle event, 0⟩ := by
  cases event with
  | request r =>
      constructor
      · intro h
        cases h with
        | request hsteps hend => rw [Machine.steps_ended_iff.mp ⟨hsteps, hend⟩, Machine.handle]
      · rintro rfl
        obtain ⟨hsteps, hend⟩ := Machine.steps_ended_iff.mpr rfl
        exact .request hsteps hend
  | setDepthLimit limit =>
      constructor
      · intro h
        cases h
        rfl
      · rintro rfl
        exact .setDepthLimit limit

/-- **After any sequence of events** a tracked machine is outside of all
applications, and otherwise what the machine without a counter is. -/
lemma Tracked.performs_iff {m : Machine} {events : List Event} {m' : Tracked} :
    Tracked.Performs ⟨m, 0⟩ events m' ↔ m' = ⟨m.perform events, 0⟩ := by
  induction events generalizing m with
  | nil =>
      constructor
      · intro h
        cases h
        rfl
      · rintro rfl
        exact .nil _
  | cons event events ih =>
      constructor
      · intro h
        cases h with
        | cons hevent hevents =>
            rw [Tracked.handles_iff] at hevent
            rw [hevent, ih] at hevents
            exact hevents
      · intro h
        exact .cons (Tracked.handles_iff.mpr rfl) (ih.mpr h)

lemma Machine.decls_perform (m : Machine) (events : List Event) :
    (m.perform events).decls = m.decls := by
  induction events generalizing m with
  | nil => rfl
  | cons event events ih =>
      have hhandle : (m.handle event).decls = m.decls := by
        cases event with
        | request r => rw [Machine.handle, Machine.answer_eq]; rfl
        | setDepthLimit limit => rfl
      exact (ih (m.handle event)).trans hhandle

/-- **A machine does not remember earlier requests.** After any sequence of
evaluations, applications and changes of the limit, the counter of active
applications is zero. Every further request then has the outcome that it has on
a new machine with the same limit, be it a value, an error or a fault, and counts
as many applications; all else stays as it is. Work on it step by step ends, in
this outcome only and with the counter back at zero, and on the way the counter
is never negative and never above the limit, or above zero where the limit is
negative. -/
theorem Machine.answers_as_fresh (p : Program) (events : List Event) : ∃ m : Machine,
    (Machine.ofProgram p).perform events = m ∧
    (∀ m', Tracked.Performs ⟨.ofProgram p, 0⟩ events m' ↔ m' = ⟨m, 0⟩) ∧
    ∀ r : Request, ∃ outcome calls,
      ((Machine.ofProgram p).setDepthLimit m.depthLimit).answer r =
        (outcome, { (Machine.ofProgram p).setDepthLimit m.depthLimit with steps := calls }) ∧
      m.answer r = (outcome, { m with steps := m.steps + calls }) ∧
      (∀ s, Running.Steps ⟨⟨m, 0⟩, r.control, []⟩ s ∧ s.step? = none ↔
        s = ⟨⟨{ m with steps := m.steps + calls }, 0⟩, .ended outcome, []⟩) ∧
      ∀ s, Running.Steps ⟨⟨m, 0⟩, r.control, []⟩ s →
        0 ≤ s.machine.depth ∧ s.machine.depth ≤ max 0 m.depthLimit := by
  refine ⟨(Machine.ofProgram p).perform events, rfl, fun m' => Tracked.performs_iff, fun r => ?_⟩
  have hdecls := (Machine.ofProgram p).decls_perform events
  generalize (Machine.ofProgram p).perform events = m at *
  have hanswer := m.answer_eq r
  rw [hdecls] at hanswer
  refine ⟨_, _, ?_, hanswer, fun s => ?_, fun s hs => ?_⟩
  · rw [Machine.answer_eq, Machine.after]
    simp [Machine.setDepthLimit, Machine.ofProgram]
  · rw [Machine.steps_ended_iff, hanswer]
    rfl
  · have hbalanced := (Running.balanced_start rfl r.control).steps hs
    exact ⟨hbalanced.depth_eq ▸ Int.natCast_nonneg _, hbalanced.depth_le⟩

end FlatClosure
