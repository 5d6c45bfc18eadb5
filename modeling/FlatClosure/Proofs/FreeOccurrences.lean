/-
Free names and their free occurrences.

The free names of a tree are collected by one walk with a scope and an accumulator.
Here they are defined twice more, once by recursion over the parts of a tree and once by
the places at which a name occurs free, and the same is done for expressions.

* `Names.without`, `Names.followedBy`, `Tree.freeNames`, `Expr.freeNames`: the free names
  of a construct from those of its parts.
* `NodePath`, `NodePath.LeftOf`: places in a tree, and which of two is further to the left.
* `Tree.FreeAt`, `Expr.FreeAt`: a name occurs free at a place.
* `ListsInOrder`: names listed in the order of their first occurrences;
  `ListsInOrder.seq` puts two such lists together.
* `Tree.listsInOrder_free`, `Expr.listsInOrder_free`: the free names are listed in this
  order.
* `free_in_order_of_occurrence`: the three definitions agree.
-/
import FlatClosure.Proofs.WellFormed

namespace FlatClosure

/-! ### Free names by recursion -/

namespace Names

/-- The names other than `name`. -/
def without (names : Names) (name : Text) : Names := names.filter (· ≠ name)

/-- The names, and then those of `more` that are not among them. -/
def followedBy (names more : Names) : Names := names ++ more.filter (!names.contains ·)

variable {names more : Names} {x name : Text}

@[simp] lemma mem_without : x ∈ names.without name ↔ x ≠ name ∧ x ∈ names := by
  rw [without, List.mem_filter, decide_eq_true_eq, and_comm]

lemma followedBy_eq (names more : Names) :
    names.followedBy more = names ++ more.filter (· ∉ names) := by
  simp [followedBy]

@[simp] lemma mem_followedBy : x ∈ names.followedBy more ↔ x ∈ names ∨ x ∈ more := by
  by_cases hx : x ∈ names <;> simp [followedBy_eq, hx]

end Names

/-- The free names of a tree, part by part: a binder removes its name from those of its
body, and of several parts the later ones add what the earlier ones do not have. -/
def Tree.freeNames : Tree → Names
  | num _ => []
  | var name => [name]
  | lam param body => body.freeNames.without param
  | app func arg => func.freeNames.followedBy arg.freeNames
  | letIn name bind body => bind.freeNames.followedBy (body.freeNames.without name)

namespace Expr

mutual

/-- The free names of an expression, part by part: a slot has its environment, an
application the name that it applies and then those of its argument, a closure those
that it captures. -/
def freeNames : Expr → Names
  | num _ | missing => []
  | ref name => [name]
  | slot env _ => [env]
  | app func arg => Names.followedBy [func] arg.freeNames
  | closure _ captured => freeNamesAll captured
  | letIn name bind body => bind.freeNames.followedBy (body.freeNames.without name)

/-- The free names of expressions in order. -/
def freeNamesAll : List Expr → Names
  | [] => []
  | e :: es => e.freeNames.followedBy (freeNamesAll es)

end

end Expr

lemma Tree.free_eq_freeNames (t : Tree) : t.free = t.freeNames := by
  induction t with
  | num value => rfl
  | var name => exact free_var name
  | lam param body ih => rw [free_lam, freeNames, ← ih, Names.without]
  | app func arg ihf iha => rw [free_app, freeNames, ← ihf, ← iha, Names.followedBy_eq]
  | letIn name bind body ihb ih =>
      rw [free_letIn, freeNames, ← ihb, ← ih, Names.followedBy_eq, Names.without]

namespace Expr

lemma collectFreeAll_eq_freeNamesAll {es : List Expr} (h : ∀ e ∈ es, e.free = e.freeNames) :
    collectFreeAll [] [] es = freeNamesAll es := by
  induction es with
  | nil => rfl
  | cons e es ih =>
      obtain ⟨he, hes⟩ := List.forall_mem_cons.mp h
      calc collectFreeAll [] [] (e :: es)
          = collectFreeAll [] e.free es := rfl
        _ = e.free.followedBy (collectFreeAll [] [] es) := by
            rw [(uniform_collectFreeAll es).nil_scope, Names.followedBy_eq]
        _ = freeNamesAll (e :: es) := by rw [ih hes, he, freeNamesAll]

lemma free_eq_freeNames (e : Expr) : e.free = e.freeNames := by
  induction e using ind with
  | num value => rfl
  | ref name => exact free_ref name
  | slot env index => exact free_slot env index
  | app func arg ih =>
      rw [free_app, freeNames, ← ih, Names.followedBy_eq, List.singleton_append]
      simp only [List.mem_singleton, ne_eq]
  | closure func captured ih => exact collectFreeAll_eq_freeNamesAll ih
  | letIn name bind body ihb ih =>
      rw [free_letIn, freeNames, ← ihb, ← ih, Names.followedBy_eq, Names.without]
  | missing => rfl

end Expr

/-! ### Places -/

/-- A place by the numbers of the parts on the way to it, from outside in. -/
abbrev NodePath := List Nat

/-- One place is to the left of another if it is in an earlier part of some construct. -/
inductive NodePath.LeftOf : NodePath → NodePath → Prop where
  | parts {i j : Nat} (p q : NodePath) (h : i < j) : LeftOf (i :: p) (j :: q)
  | inside (i : Nat) {p q : NodePath} (h : LeftOf p q) : LeftOf (i :: p) (i :: q)

lemma NodePath.not_leftOf_self (p : NodePath) : ¬ p.LeftOf p := by
  induction p with
  | nil => rintro ⟨⟩
  | cons i p ih =>
      intro h
      cases h with
      | parts _ _ h => exact Nat.lt_irrefl i h
      | inside _ h => exact ih h

/-- A name occurs at a place of a tree, and no binder around the place binds it. The
bound expression of a binding is outside the scope of its name. -/
inductive Tree.FreeAt : Tree → NodePath → Text → Prop where
  | var (name : Text) : FreeAt (var name) [] name
  | lam {param x : Text} {body : Tree} {p : NodePath} (hne : x ≠ param)
      (h : FreeAt body p x) : FreeAt (lam param body) (0 :: p) x
  | func {func arg : Tree} {p : NodePath} {x : Text} (h : FreeAt func p x) :
      FreeAt (app func arg) (0 :: p) x
  | arg {func arg : Tree} {p : NodePath} {x : Text} (h : FreeAt arg p x) :
      FreeAt (app func arg) (1 :: p) x
  | bind {name x : Text} {bind body : Tree} {p : NodePath} (h : FreeAt bind p x) :
      FreeAt (letIn name bind body) (0 :: p) x
  | body {name x : Text} {bind body : Tree} {p : NodePath} (hne : x ≠ name)
      (h : FreeAt body p x) : FreeAt (letIn name bind body) (1 :: p) x

/-- A name occurs at a place of an expression, and no binding around the place binds
it. The name that an application applies occurs to the left of the argument. -/
inductive Expr.FreeAt : Expr → NodePath → Text → Prop where
  | ref (name : Text) : FreeAt (ref name) [] name
  | slot (env : Text) (index : Int) : FreeAt (slot env index) [] env
  | callee (func : Text) (arg : Expr) : FreeAt (app func arg) [0] func
  | arg {func x : Text} {arg : Expr} {p : NodePath} (h : FreeAt arg p x) :
      FreeAt (app func arg) (1 :: p) x
  | captured {func x : Text} {captured : List Expr} {i : Nat} {c : Expr} {p : NodePath}
      (hc : captured[i]? = some c) (h : FreeAt c p x) : FreeAt (closure func captured) (i :: p) x
  | bind {name x : Text} {bind body : Expr} {p : NodePath} (h : FreeAt bind p x) :
      FreeAt (letIn name bind body) (0 :: p) x
  | body {name x : Text} {bind body : Expr} {p : NodePath} (hne : x ≠ name)
      (h : FreeAt body p x) : FreeAt (letIn name bind body) (1 :: p) x

/-! ### Names in the order of their occurrences -/

/-- Names are listed in the order of their occurrences: they are the names that occur,
and of two of them the first has an occurrence to the left of all those of the second. -/
structure ListsInOrder (occurs : NodePath → Text → Prop) (names : Names) : Prop where
  mem_iff : ∀ x, x ∈ names ↔ ∃ p, occurs p x
  ordered : names.Pairwise fun x y => ∃ p, occurs p x ∧ ∀ q, occurs q y → p.LeftOf q

namespace ListsInOrder

variable {occurs occurs' : NodePath → Text → Prop} {names names' : Names}

/-- No name is listed twice, since no occurrence is to the left of itself. -/
lemma nodup (h : ListsInOrder occurs names) : names.Nodup := by
  refine h.ordered.imp ?_
  rintro x y ⟨p, hp, hleft⟩ rfl
  exact p.not_leftOf_self (hleft p hp)

lemma congr (h : ListsInOrder occurs names) (hiff : ∀ p x, occurs' p x ↔ occurs p x) :
    ListsInOrder occurs' names := by
  have heq : occurs' = occurs := funext fun p => funext fun x => propext (hiff p x)
  exact heq ▸ h

lemma nil : ListsInOrder (fun _ _ => False) [] := ⟨by simp, .nil⟩

lemma singleton (name : Text) (p : NodePath) :
    ListsInOrder (fun q x => q = p ∧ x = name) [name] :=
  ⟨by simp, List.pairwise_singleton _ _⟩

/-- Below a binder, the bound name is left out. -/
lemma without (h : ListsInOrder occurs names) (name : Text) :
    ListsInOrder (fun p x => x ≠ name ∧ occurs p x) (names.without name) := by
  refine ⟨fun x => ?_, ?_⟩
  · simp [h.mem_iff]
  · have hordered := h.ordered.filter (· ≠ name)
    refine hordered.imp_of_mem ?_
    rintro x y hx - ⟨p, hp, hleft⟩
    exact ⟨p, ⟨(Names.mem_without.mp hx).1, hp⟩, fun q hq => hleft q hq.2⟩

/-- The occurrences in one part of a construct. -/
lemma inside (h : ListsInOrder occurs names) (i : Nat) :
    ListsInOrder (fun p x => ∃ q, p = i :: q ∧ occurs q x) names := by
  refine ⟨fun x => ?_, h.ordered.imp ?_⟩
  · rw [h.mem_iff]
    constructor
    · rintro ⟨p, hp⟩
      exact ⟨i :: p, p, rfl, hp⟩
    · rintro ⟨_, p, rfl, hp⟩
      exact ⟨p, hp⟩
  · rintro x y ⟨p, hp, hleft⟩
    refine ⟨i :: p, ⟨p, rfl, hp⟩, ?_⟩
    rintro _ ⟨q, rfl, hq⟩
    exact .inside i (hleft q hq)

/-- **Occurrences to the left of others** come first, and of the others those whose names
have not occurred. -/
lemma seq (h : ListsInOrder occurs names) (h' : ListsInOrder occurs' names')
    (hleft : ∀ p q x y, occurs p x → occurs' q y → p.LeftOf q) :
    ListsInOrder (fun p x => occurs p x ∨ occurs' p x) (names.followedBy names') := by
  -- names that are added do not occur in the first part
  have hadded : ∀ y ∈ names'.filter (!names.contains ·), ∀ q,
      occurs q y ∨ occurs' q y → occurs' q y := by
    intro y hy q hq
    have hnot : y ∉ names := by simpa using (List.mem_filter.mp hy).2
    exact hq.resolve_left fun hq => hnot ((h.mem_iff y).mpr ⟨q, hq⟩)
  refine ⟨fun x => ?_, List.pairwise_append.mpr ⟨?_, ?_, ?_⟩⟩
  · rw [Names.mem_followedBy, h.mem_iff, h'.mem_iff, exists_or]
  · refine h.ordered.imp ?_
    rintro x y ⟨p, hp, hfirst⟩
    exact ⟨p, .inl hp, fun q hq => hq.elim (hfirst q) (hleft p q x y hp)⟩
  · refine (h'.ordered.filter _).imp_of_mem ?_
    rintro x y - hy ⟨p, hp, hfirst⟩
    exact ⟨p, .inr hp, fun q hq => hfirst q (hadded y hy q hq)⟩
  · intro x hx y hy
    obtain ⟨p, hp⟩ := (h.mem_iff x).mp hx
    exact ⟨p, .inl hp, fun q hq => hleft p q x y hp (hadded y hy q hq)⟩

/-- Two parts of a construct, one to the left of the other. -/
lemma pair (h : ListsInOrder occurs names) (h' : ListsInOrder occurs' names') :
    ListsInOrder (fun p x => (∃ q, p = 0 :: q ∧ occurs q x) ∨ ∃ q, p = 1 :: q ∧ occurs' q x)
      (names.followedBy names') := by
  refine (h.inside 0).seq (h'.inside 1) ?_
  rintro _ _ x y ⟨p, rfl, -⟩ ⟨q, rfl, -⟩
  exact .parts p q Nat.zero_lt_one

end ListsInOrder

/-! ### Trees -/

namespace Tree

variable {func arg bind body : Tree} {name param x : Text} {p : NodePath}

lemma freeAt_var_iff : (var name).FreeAt p x ↔ p = [] ∧ x = name := by
  constructor
  · rintro ⟨⟩
    exact ⟨rfl, rfl⟩
  · rintro ⟨rfl, rfl⟩
    exact .var _

lemma freeAt_lam_iff :
    (lam param body).FreeAt p x ↔ ∃ q, p = 0 :: q ∧ x ≠ param ∧ body.FreeAt q x := by
  constructor
  · intro h
    cases h with
    | lam hne h => exact ⟨_, rfl, hne, h⟩
  · rintro ⟨q, rfl, hne, h⟩
    exact .lam hne h

lemma freeAt_app_iff : (app func arg).FreeAt p x ↔
    (∃ q, p = 0 :: q ∧ func.FreeAt q x) ∨ ∃ q, p = 1 :: q ∧ arg.FreeAt q x := by
  constructor
  · intro h
    cases h with
    | func h => exact .inl ⟨_, rfl, h⟩
    | arg h => exact .inr ⟨_, rfl, h⟩
  · rintro (⟨q, rfl, h⟩ | ⟨q, rfl, h⟩)
    · exact .func h
    · exact .arg h

lemma freeAt_letIn_iff : (letIn name bind body).FreeAt p x ↔
    (∃ q, p = 0 :: q ∧ bind.FreeAt q x) ∨ ∃ q, p = 1 :: q ∧ x ≠ name ∧ body.FreeAt q x := by
  constructor
  · intro h
    cases h with
    | bind h => exact .inl ⟨_, rfl, h⟩
    | body hne h => exact .inr ⟨_, rfl, hne, h⟩
  · rintro (⟨q, rfl, h⟩ | ⟨q, rfl, hne, h⟩)
    · exact .bind h
    · exact .body hne h

/-- **The free names of a tree are listed in the order of their free occurrences.** -/
lemma listsInOrder_free (t : Tree) : ListsInOrder t.FreeAt t.free := by
  rw [free_eq_freeNames]
  induction t with
  | num value => exact ListsInOrder.nil.congr fun p x => ⟨nofun, nofun⟩
  | var name => exact (ListsInOrder.singleton name []).congr fun p x => freeAt_var_iff
  | lam param body ih => exact ((ih.without param).inside 0).congr fun p x => freeAt_lam_iff
  | app func arg ihf iha => exact (ihf.pair iha).congr fun p x => freeAt_app_iff
  | letIn name bind body ihb ih =>
      exact (ihb.pair (ih.without name)).congr fun p x => freeAt_letIn_iff

end Tree

/-! ### Expressions -/

namespace Expr

variable {arg bind body : Expr} {func name env x : Text} {index : Int} {p : NodePath}

lemma freeAt_ref_iff : (ref name).FreeAt p x ↔ p = [] ∧ x = name := by
  constructor
  · rintro ⟨⟩
    exact ⟨rfl, rfl⟩
  · rintro ⟨rfl, rfl⟩
    exact .ref _

lemma freeAt_slot_iff : (slot env index).FreeAt p x ↔ p = [] ∧ x = env := by
  constructor
  · rintro ⟨⟩
    exact ⟨rfl, rfl⟩
  · rintro ⟨rfl, rfl⟩
    exact .slot _ _

lemma freeAt_app_iff : (app func arg).FreeAt p x ↔
    (∃ q, p = 0 :: q ∧ q = [] ∧ x = func) ∨ ∃ q, p = 1 :: q ∧ arg.FreeAt q x := by
  constructor
  · intro h
    cases h with
    | callee => exact .inl ⟨_, rfl, rfl, rfl⟩
    | arg h => exact .inr ⟨_, rfl, h⟩
  · rintro (⟨q, rfl, rfl, rfl⟩ | ⟨q, rfl, h⟩)
    · exact .callee _ _
    · exact .arg h

lemma freeAt_closure_iff {captured : List Expr} : (closure func captured).FreeAt p x ↔
    ∃ i c q, captured[i]? = some c ∧ p = i :: q ∧ c.FreeAt q x := by
  constructor
  · intro h
    cases h with
    | captured hc h => exact ⟨_, _, _, hc, rfl, h⟩
  · rintro ⟨i, c, q, hc, rfl, h⟩
    exact .captured hc h

lemma freeAt_letIn_iff : (letIn name bind body).FreeAt p x ↔
    (∃ q, p = 0 :: q ∧ bind.FreeAt q x) ∨ ∃ q, p = 1 :: q ∧ x ≠ name ∧ body.FreeAt q x := by
  constructor
  · intro h
    cases h with
    | bind h => exact .inl ⟨_, rfl, h⟩
    | body hne h => exact .inr ⟨_, rfl, hne, h⟩
  · rintro (⟨q, rfl, h⟩ | ⟨q, rfl, hne, h⟩)
    · exact .bind h
    · exact .body hne h

/-- Expressions that are numbered from `k` on, one to the right of the other. -/
lemma listsInOrder_freeNamesAll {es : List Expr}
    (h : ∀ e ∈ es, ListsInOrder e.FreeAt e.freeNames) (k : Nat) :
    ListsInOrder (fun p x => ∃ i e q, es[i]? = some e ∧ p = (k + i) :: q ∧ e.FreeAt q x)
      (freeNamesAll es) := by
  induction es generalizing k with
  | nil => exact ListsInOrder.nil.congr fun p x => by simp
  | cons e es ih =>
      obtain ⟨he, hes⟩ := List.forall_mem_cons.mp h
      have hrest := ih hes (k + 1)
      refine ((he.inside k).seq hrest ?_).congr fun p x => ?_
      · rintro _ _ x y ⟨p, rfl, -⟩ ⟨i, e', q, -, rfl, -⟩
        exact .parts p q (by omega)
      · constructor
        · rintro ⟨i, e', q, he', rfl, hfree⟩
          cases i with
          | zero =>
              cases he'
              exact .inl ⟨q, rfl, hfree⟩
          | succ i => exact .inr ⟨i, e', q, he', by rw [Nat.add_right_comm, Nat.add_assoc], hfree⟩
        · rintro (⟨q, rfl, hfree⟩ | ⟨i, e', q, he', rfl, hfree⟩)
          · exact ⟨0, e, q, rfl, rfl, hfree⟩
          · exact ⟨i + 1, e', q, he', by rw [Nat.add_right_comm, Nat.add_assoc], hfree⟩

/-- **The free names of an expression are listed in the order of their free
occurrences.** -/
lemma listsInOrder_free (e : Expr) : ListsInOrder e.FreeAt e.free := by
  rw [free_eq_freeNames]
  induction e using ind with
  | num value => exact ListsInOrder.nil.congr fun p x => ⟨nofun, nofun⟩
  | ref name => exact (ListsInOrder.singleton name []).congr fun p x => freeAt_ref_iff
  | slot env index => exact (ListsInOrder.singleton env []).congr fun p x => freeAt_slot_iff
  | app func arg ih =>
      exact ((ListsInOrder.singleton func []).pair ih).congr fun p x => freeAt_app_iff
  | closure func captured ih =>
      refine (listsInOrder_freeNamesAll ih 0).congr fun p x => ?_
      simp only [freeAt_closure_iff, Nat.zero_add]
  | letIn name bind body ihb ih =>
      exact (ihb.pair (ih.without name)).congr fun p x => freeAt_letIn_iff
  | missing => exact ListsInOrder.nil.congr fun p x => ⟨nofun, nofun⟩

end Expr

/-- **Free names, by parts and by occurrences.** The walks that collect the free names of
trees and of expressions give what recursion over the parts gives. No name is found
twice, the names that are found are those with a free occurrence, and they stand in the
order of their first free occurrences from left to right. -/
theorem free_in_order_of_occurrence :
    (∀ t : Tree, t.free = t.freeNames ∧ t.free.Nodup ∧ ListsInOrder t.FreeAt t.free) ∧
    ∀ e : Expr, e.free = e.freeNames ∧ e.free.Nodup ∧ ListsInOrder e.FreeAt e.free :=
  ⟨fun t => ⟨t.free_eq_freeNames, t.nodup_free, t.listsInOrder_free⟩,
    fun e => ⟨e.free_eq_freeNames, e.listsInOrder_free.nodup, e.listsInOrder_free⟩⟩

-- a name that is bound in one part and free in the next one
example : (Tree.app (.lam "x" (.app (.var "x") (.var "z"))) (.app (.var "x") (.var "z"))).free =
    [Text.ofString "z", Text.ofString "x"] := by decide

end FlatClosure
