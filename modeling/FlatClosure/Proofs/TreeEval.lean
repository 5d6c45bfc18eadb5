/-
Evaluation of trees.

A tree has a meaning of its own, without conversion: call by value, where a
function evaluates to a closure over the whole environment in which it stands.

* `Counted.Follows`: a computation that gives a related value, or stops with
  the same error, after as many applications as another, except that it may
  stop at certain unbound names; `Counted.Follows.bind` composes.
* `TreeValue`, `Tree.eval`, `TreeValue.apply`, `Tree.evaluate`: the meaning of
  a tree, given how many applications may be active at once.
* `Renamed`: values that differ by a renaming of names.
* `Tree.evaluate_rename`: a renaming that is injective on the names of a tree
  keeps its meaning.
-/
import FlatClosure.Machine
import FlatClosure.Proofs.Basic
import FlatClosure.Proofs.FreeVars

namespace FlatClosure

/-! ### Computations that follow each other -/

namespace Counted

variable {α β γ δ : Type} {U : Text → Prop}

/-- A value costs no application. -/
lemma pure_bind (a : α) (f : α → Counted γ) : (pure a >>= f) = f a := by
  show (⟨(f a).outcome, 0 + (f a).calls⟩ : Counted γ) = f a
  rw [Nat.zero_add]

/-- One computation follows another if it gives a related value, or stops with
the same error, after as many applications. Names of which `U` holds may be
unbound for it: at such a name it may stop whatever the other does. -/
inductive Follows (U : Text → Prop) (R : α → β → Prop) : Counted α → Counted β → Prop where
  | value {a : α} {b : β} (n : Nat) (h : R a b) : Follows U R ⟨.ok a, n⟩ ⟨.ok b, n⟩
  | stop (e : RuntimeError) (n : Nat) :
      Follows U R ⟨.error (.error e), n⟩ ⟨.error (.error e), n⟩
  | unbound {x : Counted α} {name : Text} (n : Nat) (h : U name) :
      Follows U R x ⟨.error (.error (.unbound name)), n⟩

lemma Follows.pure {R : α → β → Prop} {a : α} {b : β} (h : R a b) :
    Follows U R (pure a) (pure b) := .value 0 h

/-- Computations that follow each other do so when they are continued in ways
that follow each other. -/
lemma Follows.bind {R : α → β → Prop} {S : γ → δ → Prop} {x : Counted α} {y : Counted β}
    {f : α → Counted γ} {g : β → Counted δ} (hxy : Follows U R x y)
    (hfg : ∀ a b, R a b → Follows U S (f a) (g b)) : Follows U S (x >>= f) (y >>= g) := by
  cases hxy with
  | @value a b n h =>
      have hab := hfg a b h
      show Follows U S ⟨(f a).outcome, n + (f a).calls⟩ ⟨(g b).outcome, n + (g b).calls⟩
      revert hab
      generalize f a = fa
      generalize g b = gb
      intro hab
      cases hab with
      | value k h' => exact .value (n + k) h'
      | stop e k => exact .stop e (n + k)
      | unbound k h' => exact .unbound (n + k) h'
  | stop e n => exact .stop e n
  | unbound n h => exact .unbound n h

/-- Following is transitive; a name at which the middle computation stops has
to be one at which the last may stop. -/
lemma Follows.trans {R : α → β → Prop} {S : β → γ → Prop} {T : α → γ → Prop}
    {x : Counted α} {y : Counted β} {z : Counted γ} (hxy : Follows U R x y)
    (hyz : Follows U S y z) (hT : ∀ a b c, R a b → S b c → T a c) : Follows U T x z := by
  cases hyz with
  | unbound n h => exact .unbound n h
  | value n h =>
      cases hxy with
      | value _ h' => exact .value n (hT _ _ _ h' h)
  | stop e n =>
      cases hxy with
      | stop => exact .stop e n
      | unbound _ h => exact .unbound n h

end Counted

/-! ### The meaning of a tree -/

/-- A value of a tree. -/
inductive TreeValue where
  | int (value : Int32)
  /-- A function with the environment in which it stands. -/
  | closure (param : Text) (body : Tree) (env : List (Text × TreeValue))

/-- The values of the names around a tree, the innermost first. -/
abbrev TreeEnv := List (Text × TreeValue)

/-- What is printed for a value. -/
def TreeValue.render : TreeValue → Text
  | int value => Text.ofInt value.toInt
  | closure _ _ _ => closureText

/-- The value of a name. -/
def TreeEnv.read (env : TreeEnv) (name : Text) : Counted TreeValue :=
  match env.lookup name with
  | some value => pure value
  | none => .raise (.unbound name)

/-- The value of a tree in an environment, where `call` applies a value to
another. -/
def Tree.eval (call : TreeValue → TreeValue → Counted TreeValue) (env : TreeEnv) :
    Tree → Counted TreeValue
  | num value => pure (.int value.toInt32)
  | var name => env.read name
  | lam param body => pure (.closure param body env)
  | app func arg => do
    let callee ← func.eval call env
    let argument ← arg.eval call env
    call callee argument
  | letIn name bind body => do
    let value ← bind.eval call env
    body.eval call ((name, value) :: env)

/-- Applies `callee` to `argument` where `left` applications may still be
nested into each other; `limit` is the bound that a message reports. -/
def TreeValue.apply (limit : Int) :
    (left : Nat) → (callee argument : TreeValue) → Counted TreeValue
  | _, .int value, _ => .raise (.notClosure value)
  | 0, .closure _ _ _, _ => .raise (.depthExceeded limit)
  | left + 1, .closure param body env, argument => do
    Counted.tick
    body.eval (TreeValue.apply limit left) ((param, argument) :: env)

/-- The value of a whole tree when at most `limit` applications may be active
at once, none if the limit is negative. -/
def Tree.evaluate (t : Tree) (limit : Int) : Counted TreeValue :=
  t.eval (TreeValue.apply limit limit.toNat) []

/-! ### Renaming -/

section

variable (U : Text → Prop) (r : Text → Text) (s : Set Text)

/-- Environments that differ by a renaming of the names of a set, when values
are related by `R`. -/
def RenamedEnv (R : TreeValue → TreeValue → Prop) (env env' : TreeEnv) : Prop :=
  ∀ x ∈ s, Option.Rel R (env.lookup x) (env'.lookup (r x))

/-- Whether the free names of a tree are bound in an environment, except those
that have a new name in `U`. -/
def BoundExcept (t : Tree) (env : TreeEnv) : Prop :=
  ∀ x ∈ t.free, env.lookup x = none → U (r x)

/-- Values that differ by a renaming of the names of a set. -/
inductive Renamed : TreeValue → TreeValue → Prop where
  | int (value : Int32) : Renamed (.int value) (.int value)
  | closure {param : Text} {body : Tree} {env env' : TreeEnv}
      (hnames : ∀ x ∈ (Tree.lam param body).names, x ∈ s)
      (hbound : BoundExcept U r (.lam param body) env)
      (henv : ∀ x ∈ s, Option.Rel Renamed (env.lookup x) (env'.lookup (r x))) :
      Renamed (.closure param body env) (.closure (r param) (body.rename r) env')

variable {U r s}

/-- Environments that differ by a renaming still do so after one more
binding. -/
lemma RenamedEnv.cons (hr : Set.InjOn r s) {R : TreeValue → TreeValue → Prop}
    {env env' : TreeEnv} (henv : RenamedEnv r s R env env') {name : Text} (hname : name ∈ s)
    {v v' : TreeValue} (hv : R v v') :
    RenamedEnv r s R ((name, v) :: env) ((r name, v') :: env') := by
  intro x hx
  by_cases hxn : x = name
  · rw [hxn, List.lookup_cons_self, List.lookup_cons_self]
    exact .some hv
  · have hne : r x ≠ r name := fun h => hxn (hr hx hname h)
    rw [lookup_cons_of_ne hxn, lookup_cons_of_ne hne]
    exact henv x hx

/-- A name other than the newest is bound as before. -/
lemma BoundExcept.cons {t t' : Tree} {env : TreeEnv} (h : BoundExcept U r t env)
    {name : Text} {v : TreeValue} (hfree : ∀ x ∈ t'.free, x ≠ name → x ∈ t.free) :
    BoundExcept U r t' ((name, v) :: env) := by
  intro x hx hlook
  rw [List.lookup_cons] at hlook
  by_cases hxn : x = name
  · simp [hxn] at hlook
  · rw [beq_eq_false_iff_ne.mpr hxn] at hlook
    exact h x (hfree x hx hxn) hlook

lemma BoundExcept.mono {t t' : Tree} {env : TreeEnv} (h : BoundExcept U r t env)
    (hfree : t'.free ⊆ t.free) : BoundExcept U r t' env :=
  fun x hx => h x (hfree hx)

/-- Renamed trees evaluate to renamed values, if calls do. -/
lemma Tree.eval_rename (hr : Set.InjOn r s)
    {call call' : TreeValue → TreeValue → Counted TreeValue}
    (hcall : ∀ v v' w w', Renamed U r s v v' → Renamed U r s w w' →
      Counted.Follows U (Renamed U r s) (call v w) (call' v' w'))
    (t : Tree) (hnames : ∀ x ∈ t.names, x ∈ s) {env env' : TreeEnv}
    (hbound : BoundExcept U r t env) (henv : RenamedEnv r s (Renamed U r s) env env') :
    Counted.Follows U (Renamed U r s) (t.eval call env) ((t.rename r).eval call' env') := by
  induction t generalizing env env' with
  | num value => exact .pure (.int _)
  | var name =>
      have hrel := henv name (hnames name List.mem_cons_self)
      have hname := hbound name (by simp)
      rw [eval, rename, eval, TreeEnv.read, TreeEnv.read]
      revert hrel hname
      generalize env.lookup name = v
      generalize env'.lookup (r name) = v'
      intro hrel hname
      cases hrel with
      | some h => exact .pure h
      | none => exact .unbound 0 (hname rfl)
  | lam param body ih => exact .pure (.closure hnames hbound henv)
  | app func arg ihf iha =>
      refine (ihf (fun x hx => hnames x (List.mem_append_left _ hx))
        (hbound.mono fun x hx => mem_free_app.mpr (.inl hx)) henv).bind fun v v' hv => ?_
      refine (iha (fun x hx => hnames x (List.mem_append_right _ hx))
        (hbound.mono fun x hx => mem_free_app.mpr (.inr hx)) henv).bind fun w w' hw => ?_
      exact hcall v v' w w' hv hw
  | letIn name bind body ihb ih =>
      refine (ihb (fun x hx => hnames x (List.mem_cons_of_mem _ (List.mem_append_left _ hx)))
        (hbound.mono fun x hx => mem_free_letIn.mpr (.inl hx)) henv).bind fun v v' hv => ?_
      exact ih (fun x hx => hnames x (List.mem_cons_of_mem _ (List.mem_append_right _ hx)))
        (hbound.cons fun x hx hne => mem_free_letIn.mpr (.inr ⟨hx, hne⟩))
        (henv.cons hr (hnames name List.mem_cons_self) hv)

/-- Renamed values are applied alike. -/
lemma TreeValue.apply_renamed (hr : Set.InjOn r s) (limit : Int) (left : Nat)
    (v v' w w' : TreeValue) (hv : Renamed U r s v v') (hw : Renamed U r s w w') :
    Counted.Follows U (Renamed U r s) (v.apply limit left w) (v'.apply limit left w') := by
  induction left generalizing v v' w w' with
  | zero =>
      cases hv with
      | int value => exact .stop _ 0
      | closure hnames hbound henv => exact .stop _ 0
  | succ left ih =>
      cases hv with
      | int value => exact .stop _ 0
      | @closure param body env env' hnames hbound henv =>
          have htick : Counted.Follows U Eq Counted.tick Counted.tick := .value 1 rfl
          refine htick.bind fun _ _ _ => ?_
          refine body.eval_rename hr ih (fun x hx => hnames x (List.mem_cons_of_mem _ hx))
            (hbound.cons fun x hx hne => Tree.mem_free_lam.mpr ⟨hx, hne⟩) ?_
          exact RenamedEnv.cons hr henv (hnames param List.mem_cons_self) hw

end

/-- **A renaming keeps the meaning of a tree** if it is injective on its
names, except that a tree that is not closed stops at the new name of an
unbound name. -/
lemma Tree.evaluate_rename {r : Text → Text} (t : Tree) (hr : Set.InjOn r {x | x ∈ t.names})
    (limit : Int) :
    Counted.Follows (· ∈ t.free.map r) (Renamed (· ∈ t.free.map r) r {x | x ∈ t.names})
      (t.evaluate limit) ((t.rename r).evaluate limit) :=
  t.eval_rename hr (TreeValue.apply_renamed hr limit limit.toNat) (fun _ hx => hx)
    (fun _ hx _ => List.mem_map_of_mem hx) fun _ _ => .none

end FlatClosure
