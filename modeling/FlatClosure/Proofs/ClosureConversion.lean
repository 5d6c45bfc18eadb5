/-
Conversion keeps the meaning of a tree.

A source closure holds a whole environment, the closure that represents it
only the values of the free names of its function, in order. The two are
related in `Represents`, and evaluation keeps the relation.

* `Declared`: declarations that the machine finds under their names.
* `Represents`: a flat value represents a source value.
* `Reaches`: a name is read, through a substitution, as its source value.
* `Tree.eval_convert`: what is left of a tree evaluates as the tree does.
* `apply_represents`: calls of related closures agree.
* `Tree.evaluate_toProgram`: the entry of the program of a tree evaluates as
  the tree does.
* `Tree.toProgram_preserves_meaning`: the same for machines.
-/
import FlatClosure.Proofs.Conversion
import FlatClosure.Proofs.TreeEval

namespace FlatClosure

open Counted (Follows)

/-! ### Declarations of functions -/

lemma decls_convert_lam (n : Nat) (param : Text) (body : Tree) :
    ((Tree.lam param body).convert n).decls =
      (body.convert (n + 2)).decls ++ [Tree.functionDecl n param body] := rfl

/-- Whether the declarations are found under their names. -/
def Declared (decls ds : List Decl) : Prop := ∀ d ∈ ds, findDecl? decls d.name = some d

/-- Declarations with different names are found. -/
lemma declared_self {decls : List Decl} (h : (decls.map Decl.name).Nodup) :
    Declared decls decls := by
  intro d hd
  have hfilter : decls.filter (·.name == d.name) = [d] := by
    induction decls with
    | nil => exact absurd hd List.not_mem_nil
    | cons d' ds ih =>
        obtain ⟨hnot, hnodup⟩ := List.nodup_cons.mp h
        rcases List.mem_cons.mp hd with rfl | hd
        · have hrest : ds.filter (·.name == d.name) = [] := by
            refine List.filter_eq_nil_iff.mpr fun d' hd' heq => hnot ?_
            exact List.mem_map.mpr ⟨d', hd', by simpa using heq⟩
          rw [List.filter_cons_of_pos (by simp), hrest]
        · have hne : d'.name ≠ d.name := fun heq =>
            hnot (heq ▸ List.mem_map_of_mem hd)
          rw [List.filter_cons_of_neg (by simpa using hne), ih hnodup hd]
  rw [findDecl?, hfilter]
  rfl

/-! ### Values -/

/-- A flat value represents a source value: integers represent themselves, and
a closure holds representatives of the values of the free names of its
function. -/
inductive Represents (decls : List Decl) : TreeValue → Value → Prop where
  | int (value : Int32) : Represents decls (.int value) (.int value)
  | closure {n : Nat} {param : Text} {body : Tree} {env : TreeEnv} {values : List Value}
      (hdecl : Declared decls ((Tree.lam param body).convert n).decls)
      (hminted : ∀ x ∈ (Tree.lam param body).names, ¬ looksMinted x)
      (hlength : values.length = (Tree.lam param body).free.length)
      (hvalues : ∀ (i : Nat) x, (Tree.lam param body).free[i]? = some x →
        Option.Rel (Represents decls) (env.lookup x) values[i]?) :
      Represents decls (.closure param body env) (.closure (Tree.functionDecl n param body) values)

/-- A name is read as a value through a substitution of slots. -/
inductive ReadsAs (m : Subst) (f : LocalFrame) (x : Text) (v : Value) : Prop where
  | slot {env : Text} {index : Int} (hlook : m.lookup x = some (.slot env index))
      (hslot : f.slot? env index = pure v)
  | localName (hlook : m.lookup x = none) (hlocal : f.locals.lookup x = some v)

/-- A name is read as a representative of its source value, or it is one of
the names that may be unbound, and then it is unbound. -/
def Reaches (decls : List Decl) (U : Text → Prop) (env : TreeEnv) (m : Subst)
    (f : LocalFrame) (x : Text) : Prop :=
  (∃ w v, env.lookup x = some w ∧ Represents decls w v ∧ ReadsAs m f x v) ∨
    (U x ∧ m.lookup x = none ∧ f.locals.lookup x = none)

section

variable {decls : List Decl} {U : Text → Prop} {env : TreeEnv} {m : Subst} {f : LocalFrame}
  {x name : Text}

lemma ReadsAs.eval_eq {v : Value} (h : ReadsAs m f x v)
    (call : Value → Value → Counted Value) :
    ((Expr.ref x).substitute m).eval decls call f = pure v := by
  rw [Expr.substitute_ref]
  cases h with
  | slot hlook hslot => rw [hlook, Option.getD_some, Expr.eval, hslot]
  | localName hlook hlocal =>
      rw [hlook, Option.getD_none, Expr.eval, LocalFrame.local?, hlocal]

lemma eval_unbound (hlook : m.lookup x = none) (hlocal : f.locals.lookup x = none)
    (call : Value → Value → Counted Value) :
    ((Expr.ref x).substitute m).eval decls call f = .raise (.unbound x) := by
  rw [Expr.substitute_ref, hlook, Option.getD_none, Expr.eval, LocalFrame.local?, hlocal]

/-- A binding of another name does not change how a name is read. -/
lemma Reaches.bind_ne (h : Reaches decls U env m f x) (hne : x ≠ name) (v : Value) :
    Reaches decls U env (m.without name) (f.bind name v) x := by
  have hlook : (m.without name).lookup x = m.lookup x := by
    rw [Subst.lookup_without, if_neg hne]
  have hlocals : (f.bind name v).locals.lookup x = f.locals.lookup x := by
    rw [LocalFrame.bind, lookup_cons_of_ne hne]
  rcases h with ⟨w, v', henv, hrep, hread⟩ | ⟨hU, hm, hf⟩
  · refine .inl ⟨w, v', henv, hrep, ?_⟩
    cases hread with
    | slot hm hslot => exact .slot (hlook.trans hm) hslot
    | localName hm hlocal => exact .localName (hlook.trans hm) (hlocals.trans hlocal)
  · exact .inr ⟨hU, hlook.trans hm, hlocals.trans hf⟩

/-- Below a binding on both sides, the bound name is read as its value and the
others as before. -/
lemma Reaches.bind {w : TreeValue} {v : Value} (hrep : Represents decls w v)
    (h : x ≠ name → Reaches decls U env m f x) :
    Reaches decls U ((name, w) :: env) (m.without name) (f.bind name v) x := by
  by_cases hx : x = name
  · refine .inl ⟨w, v, by simp [hx], hrep, .localName ?_ ?_⟩
    · rw [Subst.lookup_without, if_pos hx]
    · rw [LocalFrame.bind, hx, List.lookup_cons_self]
  · have henv : List.lookup x ((name, w) :: env) = env.lookup x := by
      rw [lookup_cons_of_ne hx]
    rw [Reaches, henv]
    exact (h hx).bind_ne hx v

/-- Captured names evaluate to representatives of their values, or one of them
is unbound. -/
lemma evalAll_reaches {names : Names} (h : ∀ x ∈ names, Reaches decls U env m f x)
    (call : Value → Value → Counted Value) :
    (∃ values : List Value,
      Expr.evalAll decls call f (Expr.substituteAll m (names.map .ref)) = pure values ∧
        values.length = names.length ∧
        ∀ (i : Nat) x, names[i]? = some x → Option.Rel (Represents decls) (env.lookup x) values[i]?) ∨
    ∃ x, U x ∧ Expr.evalAll decls call f (Expr.substituteAll m (names.map .ref)) =
      .raise (.unbound x) := by
  induction names with
  | nil => exact .inl ⟨[], rfl, rfl, by simp⟩
  | cons x names ih =>
      rw [List.map_cons, Expr.substituteAll, Expr.evalAll]
      rcases h x List.mem_cons_self with ⟨w, v, henv, hrep, hread⟩ | ⟨hU, hm, hf⟩
      · rw [hread.eval_eq call]
        rcases ih fun y hy => h y (List.mem_cons_of_mem _ hy) with
          ⟨values, heval, hlength, hvalues⟩ | ⟨y, hU, heval⟩
        · refine .inl ⟨v :: values, by rw [heval]; rfl, by simp [hlength], fun i y hy => ?_⟩
          cases i with
          | zero =>
              have hxy : x = y := by simpa using hy
              rw [← hxy, henv]
              exact .some hrep
          | succ i => exact hvalues i y hy
        · exact .inr ⟨y, hU, by rw [heval]; rfl⟩
      · exact .inr ⟨x, hU, by rw [eval_unbound hm hf]; rfl⟩

end

/-- What is related to a value is a value. -/
lemma exists_of_rel_some {α β : Type} {R : α → β → Prop} {a : Option α} {b : β}
    (h : Option.Rel R a (some b)) : ∃ a', a = some a' ∧ R a' b := by
  cases h with
  | some h => exact ⟨_, rfl, h⟩

/-! ### Evaluation -/

/-- How calls on both sides have to agree. -/
def CallsFollow (decls : List Decl) (U : Text → Prop)
    (call : TreeValue → TreeValue → Counted TreeValue)
    (call' : Value → Value → Counted Value) : Prop :=
  ∀ w v w' v', Represents decls w v → Represents decls w' v' →
    Follows U (Represents decls) (call w w') (call' v v')

/-- **What conversion leaves of a tree evaluates as the tree does**, through
any substitution that reads the free names as their values. -/
lemma Tree.eval_convert {decls : List Decl} {U : Text → Prop}
    {call : TreeValue → TreeValue → Counted TreeValue} {call' : Value → Value → Counted Value}
    (hcall : CallsFollow decls U call call') (t : Tree) (n : Nat)
    (hdecl : Declared decls (t.convert n).decls) (hminted : ∀ x ∈ t.names, ¬ looksMinted x)
    {env : TreeEnv} {m : Subst} {f : LocalFrame}
    (hfree : ∀ x ∈ t.free, Reaches decls U env m f x) :
    Follows U (Represents decls) (t.eval call env)
      (((t.convert n).expr.substitute m).eval decls call' f) := by
  induction t generalizing n env m f with
  | num value => exact .pure (.int _)
  | var name =>
      have hname := hfree name (by simp)
      rw [eval, TreeEnv.read, convert]
      rcases hname with ⟨w, v, henv, hrep, hread⟩ | ⟨hU, hm, hf⟩
      · rw [henv, hread.eval_eq]
        exact .pure hrep
      · rw [eval_unbound hm hf]
        exact .unbound 0 hU
  | lam param body ih =>
      have hcode : findDecl? decls (mintCode (n + 1)) = some (Tree.functionDecl n param body) :=
        hdecl (Tree.functionDecl n param body) (by simp [decls_convert_lam])
      rw [eval, convert, Expr.substitute, Expr.eval, hcode]
      rcases evalAll_reaches hfree call' with ⟨values, heval, hlength, hvalues⟩ | ⟨x, hU, heval⟩
      · dsimp only
        rw [heval]
        exact .pure (.closure hdecl hminted hlength hvalues)
      · dsimp only
        rw [heval]
        exact .unbound 0 hU
  | app func arg ihf iha =>
      have hfunc := ihf n (fun d hd => hdecl d (List.mem_append_left _ hd))
        (fun x hx => hminted x (List.mem_append_left _ hx))
        (fun x hx => hfree x (mem_free_app.mpr (.inl hx)))
      refine hfunc.bind fun w v hv => ?_
      -- the temporary is not a name of the argument, so the argument does not see it
      set temp := mintTemp (func.convert n).next with htemp
      have harg := iha ((func.convert n).next + 1)
        (fun d hd => hdecl d (List.mem_append_right _ hd))
        (fun x hx => hminted x (List.mem_append_right _ hx))
        (m := m.without temp) (f := f.bind temp v) (fun x hx => by
          refine (hfree x (mem_free_app.mpr (.inr hx))).bind_ne ?_ v
          intro heq
          refine hminted x (List.mem_append_right _ (arg.free_subset_names hx)) ?_
          rw [heq]
          exact looksMinted_mintTemp _)
      have hlocal : (f.bind temp v).local? temp = pure v := by
        rw [LocalFrame.local?, LocalFrame.bind, List.lookup_cons_self]
      rw [Expr.substitute, Expr.eval, hlocal, Counted.pure_bind]
      exact harg.bind fun w' v' hv' => hcall w v w' v' hv hv'
  | letIn name bind body ihb ih =>
      have hbind := ihb n (fun d hd => hdecl d (List.mem_append_left _ hd))
        (fun x hx => hminted x (List.mem_cons_of_mem _ (List.mem_append_left _ hx)))
        (fun x hx => hfree x (mem_free_letIn.mpr (.inl hx)))
      refine hbind.bind fun w v hv => ?_
      refine ih _ (fun d hd => hdecl d (List.mem_append_right _ hd))
        (fun x hx => hminted x (List.mem_cons_of_mem _ (List.mem_append_right _ hx))) ?_
      exact fun x hx => Reaches.bind hv fun hne => hfree x (mem_free_letIn.mpr (.inr ⟨hx, hne⟩))

/-- **Calls of closures that represent each other agree.** -/
lemma apply_represents {decls : List Decl} {U : Text → Prop} (limit : Int) (left : Nat) :
    CallsFollow decls U (TreeValue.apply limit left) (Value.apply decls limit left) := by
  induction left with
  | zero =>
      intro w v w' v' hv hv'
      cases hv with
      | int value => exact .stop _ 0
      | closure hdecl hminted hlength hvalues =>
          rw [Value.apply, if_neg (by simp [Tree.functionDecl, hlength])]
          exact .stop _ 0
  | succ left ih =>
      intro w v w' v' hv hv'
      cases hv with
      | int value => exact .stop _ 0
      | @closure n param body env values hdecl hminted hlength hvalues =>
          rw [Value.apply, if_neg (by simp [Tree.functionDecl, hlength]), TreeValue.apply]
          have htick : Follows U Eq Counted.tick Counted.tick := .value 1 rfl
          refine htick.bind fun _ _ _ => ?_
          refine body.eval_convert ih (n + 2)
            (fun d hd => hdecl d (List.mem_append_left _ hd))
            (fun x hx => hminted x (List.mem_cons_of_mem _ hx)) fun x hx => .inl ?_
          by_cases hparam : x = param
          · -- the parameter is not captured and read as the argument
            refine ⟨w', v', by simp [hparam], hv', .localName ?_ ?_⟩
            · rw [lookup_slots, if_neg (by simp [hparam])]
            · rw [hparam]
              exact List.lookup_cons_self
          · -- another free name is captured and read from its slot
            have hmem : x ∈ (Tree.lam param body).free := Tree.mem_free_lam.mpr ⟨hx, hparam⟩
            have hlt := List.idxOf_lt_length_of_mem hmem
            have hrel := hvalues _ x (List.getElem?_idxOf hmem)
            obtain ⟨v'', hv''⟩ : ∃ v'', values[(Tree.lam param body).free.idxOf x]? = some v'' :=
              ⟨_, List.getElem?_eq_getElem (hlength ▸ hlt)⟩
            rw [hv''] at hrel
            obtain ⟨w'', henv, hrep⟩ := exists_of_rel_some hrel
            refine ⟨w'', v'', ?_, hrep, .slot (by rw [lookup_slots, if_pos hmem]) ?_⟩
            · rw [lookup_cons_of_ne hparam]
              exact henv
            · simp [LocalFrame.slot?, Tree.functionDecl, hv'']

/-! ### Programs -/

/-- Values that look the same from outside: the same integer, or closures
both. -/
inductive Corresponds : TreeValue → Value → Prop where
  | int (value : Int32) : Corresponds (.int value) (.int value)
  | closure {param : Text} {body : Tree} {env : TreeEnv} {code : Decl} {values : List Value} :
      Corresponds (.closure param body env) (.closure code values)

/-- Outcomes that look the same from outside: corresponding values, or the
same error at run time. -/
inductive SameOutcome : Except Stop TreeValue → Except Stop Value → Prop where
  | value {w : TreeValue} {v : Value} (h : Corresponds w v) : SameOutcome (.ok w) (.ok v)
  | error (e : RuntimeError) : SameOutcome (.error (.error e)) (.error (.error e))

lemma Corresponds.render_eq {w : TreeValue} {v : Value} (h : Corresponds w v) :
    w.render = v.render := by
  cases h <;> rfl

/-- A value and the representative of a renamed form of it correspond. -/
lemma Renamed.corresponds {U : Text → Prop} {r : Text → Text} {s : Set Text}
    {decls : List Decl} {w w' : TreeValue} {v : Value} (hw : Renamed U r s w w')
    (hv : Represents decls w' v) : Corresponds w v := by
  cases hw with
  | int value =>
      cases hv with
      | int => exact .int value
  | closure hnames hbound henv =>
      cases hv with
      | closure => exact .closure

namespace Tree

/-- **The entry of the program of a tree evaluates as the tree does**, except
that it may stop at a free name of the tree. -/
lemma evaluate_toProgram (t : Tree) (limit : Int) :
    Follows (· ∈ t.hygienic.free) Corresponds (t.evaluate limit)
      ((t.hygienic.convert 0).expr.eval t.toProgram.decls
        (Value.apply t.toProgram.decls limit limit.toNat) .empty) := by
  have hrename := t.evaluate_rename t.injOn_newName limit
  rw [← hygienic_eq, ← free_hygienic] at hrename
  have hconvert : Follows (· ∈ t.hygienic.free) (Represents t.toProgram.decls)
      (t.hygienic.evaluate limit)
      (((t.hygienic.convert 0).expr.substitute []).eval t.toProgram.decls
        (Value.apply t.toProgram.decls limit limit.toNat) .empty) := by
    refine t.hygienic.eval_convert (apply_represents limit limit.toNat) 0 ?_
      (fun x hx => not_looksMinted_of_mem_hygienic hx) fun x hx => .inr ⟨hx, rfl, rfl⟩
    rw [decls_toProgram]
    exact declared_self (t.hygienic.nodup_names_convert 0)
  rw [Expr.substitute_nil] at hconvert
  exact hrename.trans hconvert fun _ _ _ => Renamed.corresponds

/-- **Conversion keeps the meaning of a tree.** Under every limit, a machine
for the program of a closed tree gives the same outcome as the tree itself, an
integer, a closure or an error, after the same number of applications. Where
the tree is not closed, a value that the machine gives is still the one of the
tree, after as many applications. -/
theorem toProgram_preserves_meaning (t : Tree) (limit : Int) : ∃ e outcome machine,
    t.toProgram.entry = .ok e ∧
    ((Machine.ofProgram t.toProgram).setDepthLimit limit).eval e = (outcome, machine) ∧
    (t.free = [] → SameOutcome (t.evaluate limit).outcome outcome ∧
      machine.steps = (t.evaluate limit).calls) ∧
    ∀ v, outcome = .ok v → ∃ w, (t.evaluate limit).outcome = .ok w ∧ Corresponds w v ∧
      w.render = v.render ∧ machine.steps = (t.evaluate limit).calls := by
  have hfollows := t.evaluate_toProgram limit
  have hfree := t.free_hygienic
  refine ⟨_, _, _, t.entry_toProgram, rfl, ?_⟩
  dsimp only [Machine.eval, Machine.after, Machine.callUnder, Machine.setDepthLimit,
    Machine.ofProgram]
  rw [Nat.zero_add]
  revert hfollows
  generalize (t.hygienic.convert 0).expr.eval t.toProgram.decls _ _ = y
  intro hfollows
  revert hfollows
  generalize t.evaluate limit = x
  intro hfollows
  cases hfollows with
  | value n h =>
      refine ⟨fun _ => ⟨.value h, rfl⟩, fun v hv => ?_⟩
      cases hv
      exact ⟨_, rfl, h, h.render_eq, rfl⟩
  | stop e n => exact ⟨fun _ => ⟨.error e, rfl⟩, fun v hv => absurd hv (by simp)⟩
  | @unbound _ name n h =>
      refine ⟨fun hclosed => ?_, fun v hv => absurd hv (by simp)⟩
      rw [hfree, hclosed] at h
      exact absurd h List.not_mem_nil

end Tree

end FlatClosure
