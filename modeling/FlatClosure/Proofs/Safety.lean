/-
Evaluation of converted programs meets no internal defect.

A closure is sound if its code is declared and it holds one sound value for
each slot of the code. In a frame that offers what the place of a well-formed
expression promises, evaluation gives a sound value, or stops for a reason
that lies in the tree: an integer is applied, the limit is reached, or a free
name of the tree is read.

* `Ends`: the ways in which a computation may end.
* `Value.Sound`, `LocalFrame.Offers`: sound values, and frames that keep the
  promises of a place.
* `Expr.ends_eval`, `Value.ends_apply`: evaluation and application end in one of
  these ways; a call never stops at an unbound name.
* `Expr.eval_congr`: only sound values are ever called.
* `Session`: a machine and the values that have come out of it so far, over any
  number of requests. `Session.sound`: all of them are sound.
* `Tree.toProgram_session_safe`: what can happen in a session with the program
  of a tree.
-/
import FlatClosure.Proofs.ClosureConversion
import FlatClosure.Proofs.Evaluation

namespace FlatClosure

/-! ### Outcomes -/

/-- How a computation ends that meets no internal defect: in a result with the
property `P`, at an integer that is applied, at the limit of nested
applications, or at an unbound name of which `U` holds. -/
inductive Ends {α : Type} (limit : Int) (U : Text → Prop) (P : α → Prop) :
    Except Stop α → Prop where
  | value {a : α} (h : P a) : Ends limit U P (.ok a)
  | notClosure (value : Int32) : Ends limit U P (.error (.error (.notClosure value)))
  | depthExceeded : Ends limit U P (.error (.error (.depthExceeded limit)))
  | unbound {name : Text} (h : U name) : Ends limit U P (.error (.error (.unbound name)))

namespace Ends

variable {α β : Type} {limit : Int} {U V : Text → Prop} {P : α → Prop} {Q : β → Prop}

lemma mono {x : Except Stop α} (h : Ends limit U P x) (hUV : ∀ name, U name → V name) :
    Ends limit V P x := by
  cases h with
  | value h => exact .value h
  | notClosure value => exact .notClosure value
  | depthExceeded => exact .depthExceeded
  | unbound h => exact .unbound (hUV _ h)

/-- Computations in sequence end well if both do. -/
lemma bind {x : Counted α} {f : α → Counted β} (hx : Ends limit U P x.outcome)
    (hf : ∀ a, P a → Ends limit U Q (f a).outcome) : Ends limit U Q (x >>= f).outcome := by
  obtain ⟨outcome, n⟩ := x
  cases hx with
  | value h => exact hf _ h
  | notClosure value => exact .notClosure value
  | depthExceeded => exact .depthExceeded
  | unbound h => exact .unbound h

/-- After a computation that ends well, only results with its property
matter. -/
lemma bind_congr {x : Counted α} {f g : α → Counted β} (hx : Ends limit U P x.outcome)
    (hfg : ∀ a, P a → f a = g a) : (x >>= f) = (x >>= g) := by
  obtain ⟨outcome, n⟩ := x
  cases hx with
  | @value a h =>
      show (⟨(f a).outcome, n + (f a).calls⟩ : Counted β) = ⟨(g a).outcome, n + (g a).calls⟩
      rw [hfg a h]
  | _ => rfl

/-- Where no name may be unbound, none is. -/
lemma ne_unbound {x : Except Stop α} (h : Ends limit (fun _ => False) P x) (name : Text) :
    x ≠ .error (.error (.unbound name)) := by
  rintro rfl
  cases h with
  | unbound h => exact h

lemma of_toList {x : Except Stop α} (h : Ends limit U P x) {a : α}
    (ha : a ∈ x.toOption.toList) : P a := by
  cases h with
  | value h => rwa [List.mem_singleton.mp ha]
  | _ => exact absurd ha List.not_mem_nil

end Ends

/-! ### Sound values and frames -/

/-- A value is sound if every closure in it holds as many values as its code
has slots, and its code is declared. -/
inductive Value.Sound (decls : List Decl) : Value → Prop where
  | int (value : Int32) : Sound decls (.int value)
  | closure {code : Decl} {env : List Value} (hcode : code ∈ decls)
      (hlength : env.length = code.slotCount) (henv : ∀ v ∈ env, Sound decls v) :
      Sound decls (.closure code env)

/-- A frame keeps the promises of a place: the local names have sound values,
except that those of which `U` holds may have none, and the environments are
there, in their sizes, with sound values in them. -/
structure LocalFrame.Offers (f : LocalFrame) (decls : List Decl) (U : Text → Prop)
    (p : ExprPlace) : Prop where
  decls_subset : p.decls ⊆ decls
  locals : ∀ x ∈ p.locals, (∃ v, f.locals.lookup x = some v ∧ v.Sound decls) ∨
    f.locals.lookup x = none ∧ U x
  envs : ∀ e ∈ p.envs, ∃ values, f.envs.lookup e.1 = some values ∧ values.length = e.2 ∧
    ∀ v ∈ values, v.Sound decls

section

variable {decls : List Decl} {limit : Int} {U : Text → Prop} {f : LocalFrame} {p : ExprPlace}

/-- A sound value for a further name keeps the promises below its binder. -/
lemma LocalFrame.Offers.bind (h : f.Offers decls U p) (name : Text) {v : Value}
    (hv : v.Sound decls) : (f.bind name v).Offers decls U (p.bind name) := by
  refine ⟨h.decls_subset, fun x hx => ?_, h.envs⟩
  by_cases heq : x = name
  · refine .inl ⟨v, ?_, hv⟩
    rw [LocalFrame.bind, heq, List.lookup_cons_self]
  · have hx : x ∈ p.locals := (List.mem_cons.mp hx).resolve_left heq
    have hlook : (f.bind name v).locals.lookup x = f.locals.lookup x := by
      rw [LocalFrame.bind, lookup_cons_of_ne heq]
    rw [hlook]
    exact h.locals x hx

lemma LocalFrame.Offers.ends_local? (h : f.Offers decls U p) {name : Text}
    (hname : name ∈ p.locals) :
    Ends limit U (Value.Sound decls) (f.local? name).outcome := by
  rw [LocalFrame.local?]
  rcases h.locals name hname with ⟨v, hlook, hv⟩ | ⟨hlook, hU⟩
  · rw [hlook]
    exact .value hv
  · rw [hlook]
    exact .unbound hU

lemma LocalFrame.Offers.ends_slot? (h : f.Offers decls U p) {env : Text} {index size : Int}
    (henv : (env, size) ∈ p.envs) (hle : 0 ≤ index) (hlt : index < size) :
    Ends limit U (Value.Sound decls) (f.slot? env index).outcome := by
  obtain ⟨values, hlook, hlength, hsound⟩ := h.envs _ henv
  dsimp only at hlook hlength
  have hbound : index.toNat < values.length := by omega
  have hvalue : values[index.toNat]? = some values[index.toNat] := List.getElem?_eq_getElem hbound
  rw [LocalFrame.slot?, hlook]
  dsimp only
  rw [if_pos hle, hvalue]
  exact .value (hsound _ (List.getElem_mem hbound))

/-! ### Evaluation -/

namespace Expr

variable {call call' : Value → Value → Counted Value}

/-- Expressions that end well one by one do so in a row. -/
lemma ends_evalAll {es : List Expr}
    (h : ∀ e ∈ es, Ends limit U (Value.Sound decls) (e.eval decls call f).outcome) :
    Ends limit U (fun values : List Value => values.length = es.length ∧
      ∀ v ∈ values, v.Sound decls) (evalAll decls call f es).outcome := by
  induction es with
  | nil => exact .value ⟨rfl, List.forall_mem_nil _⟩
  | cons e es ih =>
      rw [evalAll]
      refine (h e List.mem_cons_self).bind fun v hv => ?_
      refine (ih fun e' he' => h e' (List.mem_cons_of_mem _ he')).bind fun values hvalues => ?_
      refine .value ⟨?_, List.forall_mem_cons.mpr ⟨hv, hvalues.2⟩⟩
      rw [List.length_cons, hvalues.1, List.length_cons]

/-- **A well-formed expression meets no internal defect**, in a frame that
keeps the promises of its place, if the calls of sound values meet none. -/
lemma ends_eval (hdecl : Declared decls decls)
    (hcall : ∀ v w, v.Sound decls → w.Sound decls →
      Ends limit (fun _ => False) (Value.Sound decls) (call v w).outcome)
    (e : Expr) (hwf : e.WellFormed p) (hf : f.Offers decls U p) :
    Ends limit U (Value.Sound decls) (e.eval decls call f).outcome := by
  induction e using ind generalizing f p with
  | num value => exact .value (.int _)
  | ref name => exact hf.ends_local? hwf
  | slot env index =>
      obtain ⟨size, henv, hle, hlt⟩ := hwf
      exact hf.ends_slot? henv hle hlt
  | app func arg ih =>
      rw [eval]
      refine (hf.ends_local? hwf.1).bind fun callee hcallee => ?_
      refine (ih hwf.2 hf).bind fun argument hargument => ?_
      exact (hcall callee argument hcallee hargument).mono fun _ => False.elim
  | closure func captured ih =>
      obtain ⟨⟨d, hd, rfl, hcount⟩, -, hall⟩ := hwf
      rw [eval, hdecl d (hf.decls_subset hd)]
      have hcaptured := ends_evalAll fun c hc => ih c hc (allWellFormed_iff.mp hall c hc) hf
      refine hcaptured.bind fun values hvalues =>
        .value (.closure (hf.decls_subset hd) ?_ hvalues.2)
      rw [hvalues.1, hcount]
  | letIn name bind body ihb ih =>
      rw [eval]
      exact (ihb hwf.1 hf).bind fun v hv => ih hwf.2 (hf.bind name hv)
  | missing => exact absurd hwf id

/-- Reads make no calls. -/
lemma evalAll_congr_of_isRead {es : List Expr} (h : ∀ e ∈ es, e.IsRead) :
    evalAll decls call f es = evalAll decls call' f es := by
  induction es with
  | nil => rfl
  | cons e es ih =>
      have hhead : e.eval decls call f = e.eval decls call' f := by
        cases e with
        | ref name => rfl
        | slot env index => rfl
        | _ => exact absurd (h _ List.mem_cons_self) id
      rw [evalAll, evalAll, hhead, ih fun e' he' => h e' (List.mem_cons_of_mem _ he')]

/-- **A well-formed expression calls nothing but sound values**: how other
values are called does not matter to it. -/
lemma eval_congr (hdecl : Declared decls decls)
    (hcall : ∀ v w, v.Sound decls → w.Sound decls →
      Ends limit (fun _ => False) (Value.Sound decls) (call v w).outcome)
    (hagree : ∀ v w, v.Sound decls → w.Sound decls → call' v w = call v w)
    (e : Expr) (hwf : e.WellFormed p) (hf : f.Offers decls U p) :
    e.eval decls call' f = e.eval decls call f := by
  induction e using ind generalizing f p with
  | num value => rfl
  | ref name => rfl
  | slot env index => rfl
  | app func arg ih =>
      have hlocal : Ends limit U (Value.Sound decls) (f.local? func).outcome :=
        hf.ends_local? hwf.1
      rw [eval, eval]
      refine hlocal.bind_congr fun callee hcallee => ?_
      rw [ih hwf.2 hf]
      exact (ends_eval hdecl hcall arg hwf.2 hf).bind_congr fun argument hargument =>
        hagree callee argument hcallee hargument
  | closure func captured ih =>
      rw [eval, eval, evalAll_congr_of_isRead hwf.2.1]
  | letIn name bind body ihb ih =>
      rw [eval, eval, ihb hwf.1 hf]
      exact (ends_eval hdecl hcall bind hwf.1 hf).bind_congr fun v hv =>
        ih hwf.2 (hf.bind name hv)
  | missing => rfl

end Expr

/-! ### Calls -/

/-- The frame of a call keeps the promises of the body that is called. -/
lemma offers_called {code : Decl} {env : List Value} {argument : Value} {earlier : List Decl}
    (hearlier : earlier ⊆ decls) (hlength : env.length = code.slotCount)
    (henv : ∀ v ∈ env, v.Sound decls) (hargument : argument.Sound decls) :
    LocalFrame.Offers ⟨[(code.arg, argument)], [(code.env, env)]⟩ decls (fun _ => False)
      (code.place earlier) := by
  refine ⟨hearlier, fun x hx => .inl ⟨argument, ?_, hargument⟩, fun e he => ⟨env, ?_, ?_, henv⟩⟩
  · rw [List.mem_singleton.mp hx, List.lookup_cons_self]
  · rw [List.mem_singleton.mp he, List.lookup_cons_self]
  · rw [List.mem_singleton.mp he]
    exact hlength

/-- **Applying sound values meets no internal defect**, and in particular no
unbound name. -/
lemma Value.ends_apply (hdecl : Declared decls decls) (hwf : DeclsWellFormed [] decls)
    (limit : Int) (left : Nat) {v w : Value} (hv : v.Sound decls) (hw : w.Sound decls) :
    Ends limit (fun _ => False) (Value.Sound decls) (v.apply decls limit left w).outcome := by
  -- the bodies that are called call with one application less to go
  induction left generalizing v w with
  | zero =>
      cases hv with
      | int value => exact .notClosure value
      | closure hcode hlength henv =>
          rw [Value.apply, if_neg (not_not.mpr hlength)]
          exact .depthExceeded
  | succ left ih =>
      cases hv with
      | int value => exact .notClosure value
      | @closure code env hcode hlength henv =>
          obtain ⟨earlier, hearlier, hbody⟩ := hwf.exists_of_mem hcode
          have htick : Ends limit (fun _ => False) (fun _ : Unit => True) Counted.tick.outcome :=
            .value trivial
          rw [Value.apply, if_neg (not_not.mpr hlength)]
          exact htick.bind fun _ _ => Expr.ends_eval hdecl (fun _ _ hv hw => ih hv hw) code.body
            hbody (offers_called hearlier hlength henv hw)

end

/-! ### Sessions -/

/-- A machine for a program, and the values that a caller holds after any
number of requests: those that evaluations of the entry and applications of
held values have given so far, the values that held closures have captured, and
integers. Requests that fail count, and the limit may change in between. -/
inductive Session (p : Program) : Machine → List Value → Prop where
  | start : Session p (.ofProgram p) []
  | setDepthLimit {m : Machine} {vs : List Value} (h : Session p m vs) (limit : Int) :
      Session p (m.setDepthLimit limit) vs
  | eval {m : Machine} {vs : List Value} (h : Session p m vs) {e : Expr} (he : p.entry = .ok e) :
      Session p (m.eval e).2 ((m.eval e).1.toOption.toList ++ vs)
  | apply {m : Machine} {vs : List Value} (h : Session p m vs) {v w : Value} (hv : v ∈ vs)
      (hw : w ∈ vs) : Session p (m.apply v w).2 ((m.apply v w).1.toOption.toList ++ vs)
  | captured {m : Machine} {vs : List Value} (h : Session p m vs) {code : Decl}
      {env : List Value} {v : Value} (hc : .closure code env ∈ vs) (hv : v ∈ env) :
      Session p m (v :: vs)
  | int {m : Machine} {vs : List Value} (h : Session p m vs) (value : Int32) :
      Session p m (.int value :: vs)

lemma Session.decls_eq {p : Program} {m : Machine} {vs : List Value} (h : Session p m vs) :
    m.decls = p.decls := by
  induction h with
  | start => rfl
  | setDepthLimit _ _ ih => exact ih
  | eval _ _ ih => exact ih
  | apply _ _ _ ih => exact ih
  | captured _ _ _ ih => exact ih
  | int _ _ ih => exact ih

namespace Tree

lemma declared_toProgram (t : Tree) : Declared t.toProgram.decls t.toProgram.decls :=
  declared_self t.nodup_names_toProgram

/-- A machine for the program of a tree applies sound values without an
internal defect. -/
lemma ends_callUnder (t : Tree) {m : Machine} (hm : m.decls = t.toProgram.decls) {v w : Value}
    (hv : v.Sound t.toProgram.decls) (hw : w.Sound t.toProgram.decls) :
    Ends m.depthLimit (fun _ => False) (Value.Sound t.toProgram.decls)
      (m.callUnder v w).outcome := by
  rw [Machine.callUnder, hm]
  exact Value.ends_apply t.declared_toProgram t.declsWellFormed_toProgram _ _ hv hw

/-- The frame of the entry keeps its promises up to the free names. -/
lemma offers_empty (t : Tree) : LocalFrame.empty.Offers t.toProgram.decls
    (· ∈ t.hygienic.free) ⟨t.hygienic.free, [], t.toProgram.decls⟩ :=
  ⟨List.Subset.refl _, fun _ hx => .inr ⟨rfl, hx⟩, List.forall_mem_nil _⟩

/-- A machine for the program of a tree evaluates the entry without an internal
defect. -/
lemma ends_entry (t : Tree) {m : Machine} (hm : m.decls = t.toProgram.decls) {e : Expr}
    (he : t.toProgram.entry = .ok e) :
    Ends m.depthLimit (· ∈ t.hygienic.free) (Value.Sound t.toProgram.decls) (m.eval e).1 := by
  show Ends _ _ _ (e.eval m.decls m.callUnder .empty).outcome
  rw [hm]
  exact Expr.ends_eval t.declared_toProgram (fun _ _ hv hw => t.ends_callUnder hm hv hw) e
    (t.wellFormed_entry he) t.offers_empty

end Tree

/-- **All values of a session are sound.** -/
lemma Session.sound {t : Tree} {m : Machine} {vs : List Value} (h : Session t.toProgram m vs)
    {v : Value} (hv : v ∈ vs) : v.Sound t.toProgram.decls := by
  induction h generalizing v with
  | start => exact absurd hv List.not_mem_nil
  | setDepthLimit _ _ ih => exact ih hv
  | eval h he ih =>
      rcases List.mem_append.mp hv with hnew | hold
      · exact (t.ends_entry h.decls_eq he).of_toList hnew
      · exact ih hold
  | apply h hcallee hargument ih =>
      rcases List.mem_append.mp hv with hnew | hold
      · exact (t.ends_callUnder h.decls_eq (ih hcallee) (ih hargument)).of_toList hnew
      · exact ih hold
  | captured h hclosure hcaptured ih =>
      rcases List.mem_cons.mp hv with rfl | hold
      · cases ih hclosure with
        | closure _ _ henv => exact henv _ hcaptured
      · exact ih hold
  | int h value ih =>
      rcases List.mem_cons.mp hv with rfl | hold
      · exact .int value
      · exact ih hold

/-- **A converted program meets no internal defect.** The program of a tree has
an entry. At any time in a session with it, under any limit, evaluating the
entry gives a value, or stops because an integer is applied, because the limit
is exceeded, or at an unbound name, and that is one of the free names of the
tree after hygiene; where the tree is closed there is none. Applying any values
of the session stops for the first two reasons only. No call that is made for
the entry stops at an unbound name either: whatever else such calls are made to
do, the entry is evaluated as before. -/
theorem Tree.toProgram_session_safe (t : Tree) : ∃ e, t.toProgram.entry = .ok e ∧
    ∀ m vs, Session t.toProgram m vs →
      Ends m.depthLimit (· ∈ t.hygienic.free) (Value.Sound t.toProgram.decls) (m.eval e).1 ∧
      (t.free = [] →
        Ends m.depthLimit (fun _ => False) (Value.Sound t.toProgram.decls) (m.eval e).1) ∧
      (∀ v ∈ vs, ∀ w ∈ vs,
        Ends m.depthLimit (fun _ => False) (Value.Sound t.toProgram.decls) (m.apply v w).1) ∧
      ∀ call : Value → Value → Counted Value,
        (∀ v w, (∀ name, (m.callUnder v w).outcome ≠ .error (.error (.unbound name))) →
          call v w = m.callUnder v w) →
        e.eval m.decls call .empty = e.eval m.decls m.callUnder .empty := by
  refine ⟨_, t.entry_toProgram, fun m vs hsession => ?_⟩
  have hm := hsession.decls_eq
  have hentry := t.ends_entry hm t.entry_toProgram
  refine ⟨hentry, fun hclosed => hentry.mono fun name hname => ?_, fun v hv w hw => ?_,
    fun call hagree => ?_⟩
  · rw [free_hygienic, hclosed] at hname
    exact absurd hname List.not_mem_nil
  · exact t.ends_callUnder hm (hsession.sound hv) (hsession.sound hw)
  · rw [hm]
    refine Expr.eval_congr t.declared_toProgram (fun _ _ hv hw => t.ends_callUnder hm hv hw)
      (fun v w hv hw => hagree v w ?_) _ (t.wellFormed_entry t.entry_toProgram) t.offers_empty
    exact (t.ends_callUnder hm hv hw).ne_unbound

end FlatClosure
