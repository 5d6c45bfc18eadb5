/-
Hygiene is one renaming, whatever the order in which names are met.

Names are collected in tables, and a table gives its names in an order of its
own. The renaming is determined all the same, since new names are chosen in the
bytewise order of the old ones.

* `Text.precedes_iff`: the bytewise order is the lexicographic one.
* `pairwise_mintedNames`: the minted names of a tree are in increasing order.
* `Lengthens`, `Assigns`: the choice of new names, against a set of names in use;
  `lengthens_iff`, `assigns_iff`: it ends, with the names that hygiene assigns.
* `Tree.HygieneRun`: hygiene with tables in any order;
  `Tree.hygieneRun_iff`: every run ends with the same tree, and there is one.
* `Nameless`, `Tree.nameless`: trees without the names of their binders;
  `Tree.nameless_rename`: a renaming that is injective keeps this form, up to the
  names that are free in it.
* `Tree.hygienic_renames`: what hygiene does to a tree.
-/
import Mathlib.Data.List.Dedup
import FlatClosure.Proofs.Hygiene

namespace FlatClosure

/-! ### Increasing lists of names -/

/-- The bytewise order is the lexicographic one. -/
lemma Text.precedes_iff {s t : Text} : Text.precedes s t ↔ s < t := by
  induction s generalizing t with
  | nil => cases t <;> simp [Text.precedes]
  | cons a s ih =>
      cases t with
      | nil => simp [Text.precedes]
      | cons b t => simp [Text.precedes, List.cons_lt_cons_iff, ih]

/-- A name that is put in its place keeps a list increasing. -/
lemma pairwise_insertSorted {name : Text} {l : List Text} (hl : l.Pairwise (· < ·)) :
    (insertSorted name l).Pairwise (· < ·) := by
  induction l with
  | nil => exact List.pairwise_singleton _ _
  | cons other rest ih =>
      obtain ⟨hother, hrest⟩ := List.pairwise_cons.mp hl
      rw [insertSorted]
      split_ifs with heq hlt
      · exact hl
      · have hname := Text.precedes_iff.mp hlt
        refine List.pairwise_cons.mpr ⟨?_, hl⟩
        intro x hx
        rcases List.mem_cons.mp hx with rfl | hx
        · exact hname
        · exact List.lt_trans hname (hother x hx)
      · refine List.pairwise_cons.mpr ⟨?_, ih hrest⟩
        intro x hx
        rcases mem_insertSorted.mp hx with rfl | hx
        · -- neither equal nor before, so behind
          have hle : other ≤ x := List.not_lt.mp fun h => hlt (Text.precedes_iff.mpr h)
          by_contra hnot
          exact heq (List.le_antisymm (List.not_lt.mp hnot) hle)
        · exact hother x hx

lemma Tree.pairwise_mintedNames (t : Tree) : t.mintedNames.Pairwise (· < ·) := by
  have hfold : ∀ l : List Text, (l.foldr insertSorted []).Pairwise (· < ·) := by
    intro l
    induction l with
    | nil => exact List.Pairwise.nil
    | cons name rest ih => exact pairwise_insertSorted ih
  exact hfold _

lemma Tree.nodup_mintedNames (t : Tree) : t.mintedNames.Nodup := by
  refine t.pairwise_mintedNames.imp fun {a b} hlt heq => ?_
  rw [heq] at hlt
  exact List.lt_irrefl b hlt

/-- The minted names of a tree are sorted. -/
lemma Tree.sorted_mintedNames (t : Tree) : t.mintedNames.Pairwise fun a b => ¬ b.precedes a := by
  refine t.pairwise_mintedNames.imp fun {a b} hlt h => ?_
  exact List.lt_irrefl a (List.lt_trans hlt (Text.precedes_iff.mp h))

/-! ### Choosing new names -/

/-- The search for a new name: a candidate in use gets one more underscore. -/
inductive Lengthens (used : Set Text) : Text → Text → Prop where
  | found {candidate : Text} (h : candidate ∉ used) : Lengthens used candidate candidate
  | next {candidate fresh : Text} (h : candidate ∈ used)
      (hnext : Lengthens used (candidate ++ "_") fresh) : Lengthens used candidate fresh

/-- New names for a list of names, one after the other; a name that is chosen is
in use from then on. -/
inductive Assigns : Set Text → List Text → List (Text × Text) → Prop where
  | nil {used : Set Text} : Assigns used [] []
  | cons {used : Set Text} {name fresh : Text} {rest : List Text} {table : List (Text × Text)}
      (hfresh : Lengthens used (name ++ "_") fresh)
      (hrest : Assigns (insert fresh used) rest table) :
      Assigns used (name :: rest) ((name, fresh) :: table)

lemma Lengthens.unique {used : Set Text} {candidate fresh fresh' : Text}
    (h : Lengthens used candidate fresh) (h' : Lengthens used candidate fresh') :
    fresh = fresh' := by
  induction h with
  | found hnot =>
      cases h' with
      | found => rfl
      | next hmem => exact absurd hmem hnot
  | next hmem _ ih =>
      cases h' with
      | found hnot => exact absurd hmem hnot
      | next _ hnext => exact ih hnext

/-- A bounded search that ends with a name not in use is the search. -/
lemma lengthens_lengthen {used : List Text} {tries : Nat} {candidate : Text}
    (h : lengthen used tries candidate ∉ used) :
    Lengthens {x | x ∈ used} candidate (lengthen used tries candidate) := by
  induction tries generalizing candidate with
  | zero => exact .found h
  | succ tries ih =>
      rw [lengthen] at h ⊢
      split_ifs at h ⊢ with hused
      · exact .next (List.contains_iff_mem.mp hused) (ih h)
      · exact .found h

/-- **The search ends**, with the fresh name. -/
lemma lengthens_iff {used : List Text} {name fresh : Text} :
    Lengthens {x | x ∈ used} (name ++ "_") fresh ↔ fresh = freshName used name := by
  have hfresh : Lengthens {x | x ∈ used} (name ++ "_") (freshName used name) :=
    lengthens_lengthen (freshName_notMem used name)
  constructor
  · intro h
    exact h.unique hfresh
  · rintro rfl
    exact hfresh

/-- The names in use determine the new names. -/
lemma assigns_iff {used names : List Text} {table : List (Text × Text)} :
    Assigns {x | x ∈ used} names table ↔ table = assignFresh used names := by
  have hinsert : ∀ (fresh : Text) (used : List Text),
      insert fresh {x | x ∈ used} = {x | x ∈ fresh :: used} := by
    intro fresh used
    ext x
    simp
  induction names generalizing used table with
  | nil =>
      constructor
      · rintro ⟨⟩
        rfl
      · rintro rfl
        exact .nil
  | cons name rest ih =>
      constructor
      · rintro (_ | ⟨hfresh, hrest⟩)
        obtain rfl := lengthens_iff.mp hfresh
        rw [hinsert] at hrest
        rw [assignFresh, ih.mp hrest]
      · rintro rfl
        refine .cons (lengthens_iff.mpr rfl) ?_
        rw [hinsert]
        exact ih.mpr rfl

/-! ### Tables in any order -/

/-- A table of names gives each of them once, in an order of its own. -/
structure ListsNames (entries : List Text) (names : Set Text) : Prop where
  nodup : entries.Nodup
  mem_iff : ∀ x, x ∈ entries ↔ x ∈ names

namespace Tree

/-- **Hygiene with tables in any order.** The names of the tree are met in one
order, those of them that look minted in another. The latter are sorted by
whatever means, and get new names one after the other. Nothing is done if there
are none. -/
inductive HygieneRun (t : Tree) : Tree → Prop where
  | unchanged {used : List Text} (hused : ListsNames used {x | x ∈ t.names})
      (hminted : used.filter looksMinted = []) : HygieneRun t t
  | renamed {used minted sorted : List Text} {table : List (Text × Text)}
      (hused : ListsNames used {x | x ∈ t.names})
      (hminted : ListsNames minted {x | x ∈ used.filter looksMinted}) (hne : minted ≠ [])
      (hperm : sorted.Perm minted) (hsorted : sorted.Pairwise fun a b => ¬ b.precedes a)
      (htable : Assigns {x | x ∈ used} sorted table) :
      HygieneRun t (t.rename fun name => (table.lookup name).getD name)

lemma rename_eq_self {r : Text → Text} (t : Tree) (hr : ∀ x ∈ t.names, r x = x) :
    t.rename r = t := by
  induction t with
  | num value => rfl
  | var name => rw [rename, hr name List.mem_cons_self]
  | lam param body ih =>
      rw [rename, hr param List.mem_cons_self, ih fun x hx => hr x (List.mem_cons_of_mem _ hx)]
  | app func arg ihf iha =>
      rw [rename, ihf fun x hx => hr x (List.mem_append_left _ hx),
        iha fun x hx => hr x (List.mem_append_right _ hx)]
  | letIn name bind body ihb ih =>
      rw [rename, hr name List.mem_cons_self,
        ihb fun x hx => hr x (List.mem_cons_of_mem _ (List.mem_append_left _ hx)),
        ih fun x hx => hr x (List.mem_cons_of_mem _ (List.mem_append_right _ hx))]

/-- Only minted names are replaced. -/
lemma newName_eq_self {t : Tree} {x : Text} (hx : ¬ looksMinted x) : t.newName x = x := by
  have hlook : t.freshNames.lookup x = none := by
    refine List.lookup_eq_none_iff.mpr fun p hp => bne_iff_ne.mpr fun heq => hx ?_
    have hkey : p.1 ∈ t.mintedNames := by
      rw [← map_fst_assignFresh t.names t.mintedNames]
      exact List.mem_map_of_mem hp
    rw [heq]
    exact (mem_mintedNames.mp hkey).2
  rw [newName, hlook]
  rfl

/-- A tree without minted names is left as it is. -/
lemma hygienic_eq_self {t : Tree} (ht : ∀ x ∈ t.names, ¬ looksMinted x) : t.hygienic = t :=
  t.rename_eq_self fun x hx => newName_eq_self (ht x hx)

/-- A minted name of the tree gets a name that is not in use. -/
lemma newName_notMem {t : Tree} {x : Text} (hx : x ∈ t.names) (hminted : looksMinted x) :
    t.newName x ∉ t.names := by
  rcases newName_cases hx with ⟨hnot, -⟩ | hmem
  · exact absurd hminted hnot
  · exact (notMem_of_mem_assignFresh hmem).1

/-- However the minted names of a tree are met, they are sorted in one way. -/
lemma eq_mintedNames {t : Tree} {used minted sorted : List Text}
    (hused : ListsNames used {x | x ∈ t.names})
    (hminted : ListsNames minted {x | x ∈ used.filter looksMinted}) (hperm : sorted.Perm minted)
    (hsorted : sorted.Pairwise fun a b => ¬ b.precedes a) : sorted = t.mintedNames := by
  have hmem : ∀ x, x ∈ sorted ↔ x ∈ t.mintedNames := by
    intro x
    rw [hperm.mem_iff, hminted.mem_iff, mem_mintedNames]
    simp [hused.mem_iff]
  have hsame : sorted.Perm t.mintedNames :=
    (List.perm_ext_iff_of_nodup (hperm.nodup_iff.mpr hminted.nodup) t.nodup_mintedNames).mpr hmem
  refine hsame.eq_of_pairwise (fun a b _ _ hab hba => ?_) hsorted t.sorted_mintedNames
  rw [Text.precedes_iff, List.not_lt] at hab hba
  exact List.le_antisymm hab hba

lemma HygieneRun.eq_hygienic {t t' : Tree} (h : HygieneRun t t') : t' = t.hygienic := by
  cases h with
  | unchanged hused hnone =>
      refine (hygienic_eq_self fun x hx => ?_).symm
      exact List.filter_eq_nil_iff.mp hnone x ((hused.mem_iff x).mpr hx)
  | @renamed used minted sorted table hused hminted _ hperm hsorted htable =>
      have hset : {x | x ∈ used} = {x | x ∈ t.names} := Set.ext hused.mem_iff
      rw [hset, eq_mintedNames hused hminted hperm hsorted, assigns_iff] at htable
      rw [htable]
      rfl

lemma hygieneRun_hygienic (t : Tree) : HygieneRun t t.hygienic := by
  have hused : ListsNames t.names.dedup {x | x ∈ t.names} :=
    ⟨t.names.nodup_dedup, fun x => List.mem_dedup⟩
  by_cases hnone : ∀ x ∈ t.names, ¬ looksMinted x
  · rw [hygienic_eq_self hnone]
    refine .unchanged hused (List.filter_eq_nil_iff.mpr fun x hx => ?_)
    exact hnone x (List.mem_dedup.mp hx)
  · push Not at hnone
    obtain ⟨x, hx, hminted⟩ := hnone
    have hlists : ListsNames t.mintedNames {x | x ∈ t.names.dedup.filter looksMinted} :=
      ⟨t.nodup_mintedNames, fun y => by simp [mem_mintedNames]⟩
    have hne : t.mintedNames ≠ [] := List.ne_nil_of_mem (mem_mintedNames.mpr ⟨hx, hminted⟩)
    have hset : {x | x ∈ t.names.dedup} = {x | x ∈ t.names} := Set.ext hused.mem_iff
    refine .renamed hused hlists hne (List.Perm.refl _) t.sorted_mintedNames ?_
    rw [hset]
    exact assigns_iff.mpr rfl

/-- **Every run of hygiene ends with the same tree**, and there is one. -/
lemma hygieneRun_iff {t t' : Tree} : HygieneRun t t' ↔ t' = t.hygienic :=
  ⟨HygieneRun.eq_hygienic, fun h => h ▸ t.hygieneRun_hygienic⟩

end Tree

/-! ### Nameless forms -/

/-- A tree without the names of its binders. A bound name is the number of
binders between its occurrence and its own binder. -/
inductive Nameless where
  | num (value : Int64)
  | bound (index : Nat)
  | free (name : Text)
  | lam (body : Nameless)
  | app (func arg : Nameless)
  | letIn (bind body : Nameless)
  deriving DecidableEq

/-- The nameless form with its free names replaced. -/
def Nameless.rename (r : Text → Text) : Nameless → Nameless
  | num value => num value
  | bound index => bound index
  | free name => free (r name)
  | lam body => lam (body.rename r)
  | app func arg => app (func.rename r) (arg.rename r)
  | letIn bind body => letIn (bind.rename r) (body.rename r)

namespace Tree

/-- The nameless form of a tree that stands in `scope`. -/
def nameless (scope : Scope) : Tree → Nameless
  | num value => .num value
  | var name =>
    match scope.idxOf? name with
    | some index => .bound index
    | none => .free name
  | lam param body => .lam (body.nameless (scope.declare param))
  | app func arg => .app (func.nameless scope) (arg.nameless scope)
  | letIn name bind body => .letIn (bind.nameless scope) (body.nameless (scope.declare name))

end Tree

/-- A renaming that is injective keeps the position of a name. -/
lemma idxOf?_map_of_injOn {r : Text → Text} {s : Set Text} (hr : Set.InjOn r s) {scope : Scope}
    (hscope : ∀ x ∈ scope, x ∈ s) {name : Text} (hname : name ∈ s) :
    List.idxOf? (r name) (scope.map r) = scope.idxOf? name := by
  induction scope with
  | nil => rfl
  | cons x scope ih =>
      obtain ⟨hx, hscope⟩ := List.forall_mem_cons.mp hscope
      have hiff : (r x == r name) = (x == name) := by
        rw [Bool.eq_iff_iff, beq_iff_eq, beq_iff_eq]
        exact hr.eq_iff hx hname
      rw [List.map_cons, List.idxOf?_cons, List.idxOf?_cons, hiff, ih hscope]

/-- **A renaming that is injective keeps the nameless form**, up to the names
that are free in it. -/
lemma Tree.nameless_rename {r : Text → Text} {s : Set Text} (hr : Set.InjOn r s) (t : Tree)
    (ht : ∀ x ∈ t.names, x ∈ s) {scope : Scope} (hscope : ∀ x ∈ scope, x ∈ s) :
    (t.rename r).nameless (scope.map r) = (t.nameless scope).rename r := by
  induction t generalizing scope with
  | num value => rfl
  | var name =>
      rw [rename, nameless, nameless, idxOf?_map_of_injOn hr hscope (ht name List.mem_cons_self)]
      cases scope.idxOf? name <;> rfl
  | lam param body ih =>
      obtain ⟨hparam, hbody⟩ := List.forall_mem_cons.mp ht
      have hdeclare : ∀ x ∈ scope.declare param, x ∈ s := List.forall_mem_cons.mpr ⟨hparam, hscope⟩
      exact congrArg Nameless.lam (ih hbody hdeclare)
  | app func arg ihf iha =>
      obtain ⟨hfunc, harg⟩ := List.forall_mem_append.mp ht
      exact congrArg₂ Nameless.app (ihf hfunc hscope) (iha harg hscope)
  | letIn name bind body ihb ih =>
      obtain ⟨hname, ht⟩ := List.forall_mem_cons.mp ht
      obtain ⟨hbind, hbody⟩ := List.forall_mem_append.mp ht
      have hdeclare : ∀ x ∈ scope.declare name, x ∈ s := List.forall_mem_cons.mpr ⟨hname, hscope⟩
      exact congrArg₂ Nameless.letIn (ihb hbind hscope) (ih hbody hdeclare)

/-! ### What hygiene does -/

/-- A name that does not look minted is none of the names that conversion
mints. -/
lemma ne_mint_of_not_looksMinted {x : Text} (hx : ¬ looksMinted x) (i : Nat) :
    x ≠ mintEnv i ∧ x ≠ mintCode i ∧ x ≠ mintTemp i :=
  ⟨fun h => hx (h ▸ looksMinted_mintEnv i), fun h => hx (h ▸ looksMinted_mintCode i),
    fun h => hx (h ▸ looksMinted_mintTemp i)⟩

/-- **Hygiene is a renaming that keeps the meaning.** In whatever order names are
met, it gives one tree: the given one with a renaming at binders and
occurrences. The renaming is injective on the names of the tree, leaves names
that do not look minted, and gives the others names that do not look minted and
are not in use. So no name that is left looks minted or is minted by conversion,
occurrences have the same binders as before, the free names are renamed in
place, and a second time nothing changes. -/
theorem Tree.hygienic_renames (t : Tree) :
    (∀ t', HygieneRun t t' ↔ t' = t.hygienic) ∧
    t.hygienic = t.rename t.newName ∧
    Set.InjOn t.newName {x | x ∈ t.names} ∧
    (∀ x, ¬ looksMinted x → t.newName x = x) ∧
    (∀ x ∈ t.names, looksMinted x → ¬ looksMinted (t.newName x) ∧ t.newName x ∉ t.names) ∧
    (∀ x ∈ t.hygienic.names, ¬ looksMinted x ∧
      ∀ i, x ≠ mintEnv i ∧ x ≠ mintCode i ∧ x ≠ mintTemp i) ∧
    t.hygienic.nameless [] = (t.nameless []).rename t.newName ∧
    t.hygienic.free = t.free.map t.newName ∧
    t.hygienic.hygienic = t.hygienic := by
  refine ⟨fun t' => hygieneRun_iff, t.hygienic_eq, t.injOn_newName, fun x => newName_eq_self,
    fun x hx hminted => ⟨not_looksMinted_newName hx, newName_notMem hx hminted⟩, fun x hx => ?_,
    ?_, t.free_hygienic, ?_⟩
  · have hminted := not_looksMinted_of_mem_hygienic hx
    exact ⟨hminted, ne_mint_of_not_looksMinted hminted⟩
  · exact t.nameless_rename t.injOn_newName (fun _ hx => hx) (List.forall_mem_nil _)
  · exact hygienic_eq_self fun x hx => not_looksMinted_of_mem_hygienic hx

-- The first candidate for `_1` is in use.
example : (Tree.app (.var "_1") (.var "_1_")).hygienic = .app (.var "_1__") (.var "_1_") := by
  decide

end FlatClosure
