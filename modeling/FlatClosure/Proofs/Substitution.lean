/-
Substitution and evaluation.

Where references are replaced by slots, an expression evaluates as it does in a frame
whose locals have the values in these slots. A binding that shadows a replaced name drops
it from the substitution, and in the frame its value takes the place of the other one.

* `LocalFrame.HasSlot`, `LocalFrame.slotValue?`: slots that a frame has, and the values in
  them; `LocalFrame.override`: a frame with these values as locals.
* `Expr.freeCallees`: the names that an expression applies and does not bind itself.
* `LocalFrame.Overrides`: one frame has the values of the slots where another one has the
  slots; `LocalFrame.Overrides.bind`: it does so below a binding.
* `Expr.eval_of_overrides`: evaluation after a substitution, and in the other frame.
* `Expr.eval_substitute`: the same for the frame with the values of the slots, and for the
  steps of a machine.
-/
import FlatClosure.Proofs.Conversion
import FlatClosure.Proofs.Stepping

namespace FlatClosure

/-! ### Slots of a frame -/

namespace LocalFrame

/-- An expression reads a slot of the frame: the frame has its environment, and the index
is in range. -/
def HasSlot (f : LocalFrame) (e : Expr) : Prop :=
  ∃ env index values, e = .slot env index ∧ f.envs.lookup env = some values ∧
    0 ≤ index ∧ index < values.length

/-- The value that an expression reads, if it reads a slot of the frame. -/
def slotValue? (f : LocalFrame) : Expr → Option Value
  | .slot env index => (f.slot? env index).outcome.toOption
  | _ => none

/-- The frame with a local for each name of a substitution, which has the value that the
replacement of the name reads. -/
def override (f : LocalFrame) (m : Subst) : LocalFrame :=
  { f with
    locals := (m.filterMap fun p => (f.slotValue? p.2).map (p.1, ·)) ++ f.locals }

/-- A slot that the frame has is read without an error. -/
lemma HasSlot.exists_slot? {f : LocalFrame} {e : Expr} (h : f.HasSlot e) :
    ∃ env index v, e = .slot env index ∧ f.slot? env index = pure v ∧
      f.slotValue? e = some v := by
  obtain ⟨env, index, values, rfl, hlook, hnonneg, hlt⟩ := h
  have hvalue : values[index.toNat]? = some (values.get ⟨index.toNat, by omega⟩) :=
    List.getElem?_eq_getElem _
  have hslot : f.slot? env index = pure (values.get ⟨index.toNat, by omega⟩) := by
    rw [slot?, hlook]
    dsimp only
    rw [if_pos hnonneg, hvalue]
  refine ⟨env, index, _, rfl, hslot, ?_⟩
  rw [slotValue?, hslot]
  rfl

/-- A name of the substitution has the value that its replacement reads, and the other
locals stay. -/
lemma lookup_override {f : LocalFrame} {m : Subst} (hm : ∀ p ∈ m, f.HasSlot p.2) (x : Text) :
    (f.override m).locals.lookup x =
      match m.lookup x with
      | some e => f.slotValue? e
      | none => f.locals.lookup x := by
  induction m with
  | nil => rfl
  | cons p m ih =>
      obtain ⟨name, e⟩ := p
      obtain ⟨he, hm⟩ := List.forall_mem_cons.mp hm
      obtain ⟨-, -, v, -, -, hvalue⟩ := he.exists_slot?
      have hlocals : (f.override ((name, e) :: m)).locals = (name, v) :: (f.override m).locals := by
        simp [override, hvalue]
      rw [hlocals]
      by_cases hx : x = name
      · rw [hx, List.lookup_cons_self, List.lookup_cons_self]
        exact hvalue.symm
      · rw [lookup_cons_of_ne hx, lookup_cons_of_ne hx]
        exact ih hm

end LocalFrame

/-! ### Names that are applied -/

namespace Expr

mutual

/-- The names that an expression applies outside of its own bindings of them. -/
def freeCallees : Expr → List Text
  | num _ | ref _ | slot _ _ | missing => []
  | app func arg => func :: arg.freeCallees
  | closure _ captured => freeCalleesAll captured
  | letIn name bind body => bind.freeCallees ++ body.freeCallees.filter (· ≠ name)

/-- The names that expressions apply outside of their own bindings of them. -/
def freeCalleesAll : List Expr → List Text
  | [] => []
  | e :: es => e.freeCallees ++ freeCalleesAll es

end

lemma freeCalleesAll_eq (es : List Expr) : freeCalleesAll es = es.flatMap freeCallees := by
  induction es with
  | nil => rfl
  | cons e es ih => rw [freeCalleesAll, ih, List.flatMap_cons]

end Expr

/-! ### Two frames -/

/-- A frame has as locals the values of the slots by which a substitution replaces names,
and otherwise agrees with another frame, which has these slots. -/
structure LocalFrame.Overrides (g f : LocalFrame) (m : Subst) : Prop where
  envs_eq : g.envs = f.envs
  replaced : ∀ x e, m.lookup x = some e →
    ∃ env index v, e = .slot env index ∧ f.slot? env index = pure v ∧ g.locals.lookup x = some v
  kept : ∀ x, m.lookup x = none → g.locals.lookup x = f.locals.lookup x

section

variable {f g : LocalFrame} {m : Subst}

lemma LocalFrame.overrides_override (hm : ∀ p ∈ m, f.HasSlot p.2) :
    (f.override m).Overrides f m := by
  refine ⟨rfl, fun x e hx => ?_, fun x hx => ?_⟩
  · obtain ⟨env, index, v, heq, hslot, hvalue⟩ := (hm _ (mem_of_lookup hx)).exists_slot?
    refine ⟨env, index, v, heq, hslot, ?_⟩
    rw [lookup_override hm, hx]
    exact hvalue
  · rw [lookup_override hm, hx]

/-- Below a binding in both frames, the bound name is dropped from the substitution. -/
lemma LocalFrame.Overrides.bind (h : g.Overrides f m) (name : Text) (v : Value) :
    (g.bind name v).Overrides (f.bind name v) (m.without name) := by
  refine ⟨h.envs_eq, fun x e hx => ?_, fun x hx => ?_⟩
  · rw [Subst.lookup_without] at hx
    split_ifs at hx with hname
    obtain ⟨env, index, w, heq, hslot, hlocal⟩ := h.replaced x e hx
    refine ⟨env, index, w, heq, hslot, ?_⟩
    rw [LocalFrame.bind, lookup_cons_of_ne hname, hlocal]
  · rw [Subst.lookup_without] at hx
    rw [LocalFrame.bind, LocalFrame.bind]
    by_cases hname : x = name
    · rw [hname, List.lookup_cons_self, List.lookup_cons_self]
    · rw [if_neg hname] at hx
      rw [lookup_cons_of_ne hname, lookup_cons_of_ne hname, h.kept x hx]

/-- A name that is not replaced is read alike in both frames. -/
lemma LocalFrame.Overrides.local?_eq (h : g.Overrides f m) {x : Text} (hx : m.lookup x = none) :
    f.local? x = g.local? x := by
  rw [LocalFrame.local?, LocalFrame.local?, h.kept x hx]

namespace Expr

variable {decls : List Decl} {call : Value → Value → Counted Value}

lemma evalAll_substituteAll {es : List Expr} (h : ∀ e ∈ es,
      (e.substitute m).eval decls call f = e.eval decls call g) :
    evalAll decls call f (substituteAll m es) = evalAll decls call g es := by
  induction es with
  | nil => rfl
  | cons e es ih =>
      obtain ⟨he, hes⟩ := List.forall_mem_cons.mp h
      rw [substituteAll, evalAll, evalAll, he, ih hes]

/-- **Evaluation after a substitution by slots** is evaluation in the frame that has the
values of the slots as locals. -/
lemma eval_of_overrides (e : Expr) (h : g.Overrides f m)
    (hcallees : ∀ x ∈ e.freeCallees, m.lookup x = none) :
    (e.substitute m).eval decls call f = e.eval decls call g := by
  -- below a binding, both the frames and the substitution are other ones
  induction e using ind generalizing f g m with
  | num value => rfl
  | ref name =>
      rw [substitute_ref, eval]
      cases hlook : m.lookup name with
      | none => rw [Option.getD_none, eval, h.local?_eq hlook]
      | some e =>
          obtain ⟨env, index, v, rfl, hslot, hlocal⟩ := h.replaced name e hlook
          rw [Option.getD_some, eval, hslot, LocalFrame.local?, hlocal]
  | slot env index => rw [substitute, eval, eval, LocalFrame.slot?, LocalFrame.slot?, h.envs_eq]
  | app func arg ih =>
      obtain ⟨hfunc, harg⟩ := List.forall_mem_cons.mp hcallees
      rw [substitute, eval, eval, h.local?_eq hfunc, ih h harg]
  | closure func captured ih =>
      rw [freeCallees, freeCalleesAll_eq] at hcallees
      have hcaptured : ∀ c ∈ captured, (c.substitute m).eval decls call f = c.eval decls call g :=
        fun c hc => ih c hc h fun x hx => hcallees x (List.mem_flatMap.mpr ⟨c, hc, hx⟩)
      rw [substitute, eval, eval, evalAll_substituteAll hcaptured]
  | letIn name bind body ihb ih =>
      obtain ⟨hbind, hbody⟩ := List.forall_mem_append.mp hcallees
      have hbody' : ∀ x ∈ body.freeCallees, (m.without name).lookup x = none := by
        intro x hx
        rw [Subst.lookup_without]
        split_ifs with hname
        · rfl
        · exact hbody x (List.mem_filter.mpr ⟨hx, by simpa using hname⟩)
      rw [substitute, eval, eval, ihb h hbind]
      congr 1
      funext v
      exact ih (h.bind name v) hbody'
  | missing => rfl

end Expr

end

/-- **Substitution is evaluation with other locals.** Let a substitution replace names by
slots that a frame has, and let an expression apply none of these names, except below its
own bindings of them. Then it has after the substitution the outcome, a value, an error or
a fault, that it has in the frame in which these names are locals with the values of the
slots, after as many applications, whatever calls do. A machine at any depth and with
anything pending comes in both cases to the same outcome and to the same state. -/
theorem Expr.eval_substitute (e : Expr) {f : LocalFrame} {m : Subst}
    (hslots : ∀ p ∈ m, f.HasSlot p.2) (hcallees : ∀ x ∈ e.freeCallees, m.lookup x = none) :
    (∀ decls call, (e.substitute m).eval decls call f = e.eval decls call (f.override m)) ∧
    ∀ (machine : Tracked) (pending : List Pending), ∃ outcome calls,
      Running.Steps ⟨machine, .eval (e.substitute m) f, pending⟩
        ⟨machine.count calls, .ended outcome, pending⟩ ∧
      Running.Steps ⟨machine, .eval e (f.override m), pending⟩
        ⟨machine.count calls, .ended outcome, pending⟩ := by
  have heval : ∀ decls call, (e.substitute m).eval decls call f =
      e.eval decls call (f.override m) := fun decls call =>
    e.eval_of_overrides (LocalFrame.overrides_override hslots) hcallees
  refine ⟨heval, fun machine pending => ?_⟩
  have hcall : ∀ n v w, (machine.count n).Computes (.apply v w)
      (Value.apply machine.decls machine.depthLimit
        (machine.depthLimit - machine.depth).toNat v w) :=
    fun n v w => Tracked.computes_apply _ rfl v w
  have hleft := Tracked.computes_eval hcall (e.substitute m) f 0 pending
  have hright := Tracked.computes_eval hcall e (f.override m) 0 pending
  rw [heval] at hleft
  exact ⟨_, _, hleft, hright⟩

/-- A replaced name is applied where the expression binds it again, and a closure captures
both replaced names. -/
theorem Expr.eval_substitute_shadowed :
    let d : Decl := ⟨2, "pair", "e", "x", .slot "e" 1⟩
    let f : LocalFrame := ⟨[], [("env", [.int 5, .int 7])]⟩
    let m : Subst := [("a", .slot "env" 0), ("b", .slot "env" 1)]
    let e : Expr := .letIn "a" (.closure "pair" [.ref "a", .ref "b"]) (.app "a" (.ref "b"))
    (∀ p ∈ m, f.HasSlot p.2) ∧ (∀ x ∈ e.freeCallees, m.lookup x = none) ∧
    f.override m = ⟨[("a", .int 5), ("b", .int 7)], f.envs⟩ ∧
    (e.substitute m).eval [d] (Value.apply [d] 1 1) f = ⟨.ok (.int 7), 1⟩ ∧
    e.eval [d] (Value.apply [d] 1 1) (f.override m) = ⟨.ok (.int 7), 1⟩ := by
  intro d f m e
  have hslots : ∀ p ∈ m, f.HasSlot p.2 := by
    intro p hp
    simp only [m, List.mem_cons, List.not_mem_nil, or_false] at hp
    rcases hp with rfl | rfl
    · exact ⟨"env", 0, _, rfl, rfl, by decide, by decide⟩
    · exact ⟨"env", 1, _, rfl, rfl, by decide, by decide⟩
  have hcallees : ∀ x ∈ e.freeCallees, m.lookup x = none := by
    have hnone : e.freeCallees = [] := by decide
    simp [hnone]
  have heval : e.eval [d] (Value.apply [d] 1 1) (f.override m) = ⟨.ok (.int 7), 1⟩ := rfl
  exact ⟨hslots, hcallees, rfl, ((e.eval_substitute hslots hcallees).1 _ _).trans heval, heval⟩

-- a name that is applied is not replaced
example :
    let f : LocalFrame := ⟨[], [("env", [.int 5])]⟩
    let m : Subst := [("a", .slot "env" 0)]
    let e : Expr := .app "a" (.num 1)
    ((e.substitute m).eval [] (Value.apply [] 1 1) f).outcome.map Value.render =
      .error (.error (.unbound "a")) ∧
    (e.eval [] (Value.apply [] 1 1) (f.override m)).outcome.map Value.render =
      .error (.error (.notClosure 5)) := by
  decide

end FlatClosure
