/-
Hygiene is a renaming that leaves no minted name.

* `freshName_notMem`: a fresh name is not in use.
* `assignFresh_nodup`, `notMem_of_mem_assignFresh`: fresh names that are
  assigned one after the other differ from each other and from the names in
  use.
* `Tree.newName`: what hygiene does to a name. `Tree.injOn_newName`: it is
  injective on the names of the tree.
* `Tree.not_looksMinted_of_mem_hygienic`: no name of the renamed tree looks
  minted.
* `Tree.free_hygienic`: the free names are renamed in place.
-/
import FlatClosure.Proofs.Basic
import FlatClosure.Proofs.FreeVars
import FlatClosure.Proofs.MintedNames

namespace FlatClosure

/-! ### Fresh names -/

/-- A name with a number of underscores. -/
def underscored (name : Text) (k : Nat) : Text := name ++ List.replicate k 95

lemma underscored_injective (name : Text) : Function.Injective (underscored name) := by
  intro j k h
  have hlen := congrArg List.length h
  simpa [underscored] using hlen

lemma underscored_append (name : Text) (k : Nat) :
    underscored (name ++ "_") k = underscored name (k + 1) := by
  rw [underscored, underscored, List.replicate_succ, List.append_assoc]
  rfl

/-- The search passes over candidates in use, and stops early only at one that
is not in use. -/
lemma lengthen_eq (used : List Text) (tries : Nat) (candidate : Text) :
    ∃ k ≤ tries, lengthen used tries candidate = underscored candidate k ∧
      (∀ j < k, underscored candidate j ∈ used) ∧
      (k < tries → underscored candidate k ∉ used) := by
  induction tries generalizing candidate with
  | zero => exact ⟨0, le_rfl, by simp [lengthen, underscored], by simp, by simp⟩
  | succ tries ih =>
      by_cases hused : candidate ∈ used
      · obtain ⟨k, hk, heq, hbelow, hstop⟩ := ih (candidate ++ "_")
        refine ⟨k + 1, by omega, ?_, ?_, ?_⟩
        · rw [lengthen, if_pos (by simpa using hused), heq, underscored_append]
        · intro j hj
          cases j with
          | zero => simpa [underscored] using hused
          | succ j =>
              rw [← underscored_append]
              exact hbelow j (by omega)
        · intro hlt
          rw [← underscored_append]
          exact hstop (by omega)
      · refine ⟨0, by omega, ?_, by simp, fun _ => by simpa [underscored] using hused⟩
        rw [lengthen, if_neg (by simpa using hused)]
        simp [underscored]

/-- A fresh name is the given one with at least one underscore. -/
lemma freshName_eq (used : List Text) (name : Text) :
    ∃ k, freshName used name = underscored name (k + 1) := by
  obtain ⟨k, -, heq, -, -⟩ := lengthen_eq used used.length (name ++ "_")
  exact ⟨k, by rw [freshName, heq, underscored_append]⟩

/-- A fresh name is not in use. -/
lemma freshName_notMem (used : List Text) (name : Text) : freshName used name ∉ used := by
  obtain ⟨k, hk, heq, hbelow, hstop⟩ := lengthen_eq used used.length (name ++ "_")
  rw [freshName, heq]
  by_cases hlt : k < used.length
  · exact hstop hlt
  · -- all candidates but the last are in use, so the last is not
    obtain ⟨j, hj, hnot⟩ := exists_notMem_of_injective (underscored_injective (name ++ "_")) used
    by_cases hjk : j = k
    · rw [← hjk]
      exact hnot
    · exact absurd (hbelow j (by omega)) hnot

/-- A fresh name does not look minted: it ends in an underscore. -/
lemma not_looksMinted_freshName (used : List Text) (name : Text) :
    ¬ looksMinted (freshName used name) := by
  intro h
  obtain ⟨k, heq⟩ := freshName_eq used name
  obtain ⟨b, hlast, hdigit⟩ := isDigit_getLast_of_looksMinted h
  have hb : b = 95 := by
    rw [heq, underscored, List.getLast?_append, List.getLast?_replicate] at hlast
    simpa using hlast.symm
  rw [hb] at hdigit
  exact absurd hdigit (by decide)

/-! ### Assigning fresh names -/

lemma map_fst_assignFresh (used names : List Text) :
    (assignFresh used names).map Prod.fst = names := by
  induction names generalizing used with
  | nil => rfl
  | cons name rest ih => rw [assignFresh, List.map_cons, ih]

/-- Assigned names are not in use and do not look minted. -/
lemma notMem_of_mem_assignFresh {used names : List Text} {p : Text × Text}
    (hp : p ∈ assignFresh used names) : p.2 ∉ used ∧ ¬ looksMinted p.2 := by
  induction names generalizing used with
  | nil => exact absurd hp List.not_mem_nil
  | cons name rest ih =>
      rw [assignFresh] at hp
      rcases List.mem_cons.mp hp with rfl | hp
      · exact ⟨freshName_notMem used name, not_looksMinted_freshName used name⟩
      · obtain ⟨hused, hminted⟩ := ih hp
        exact ⟨fun h => hused (List.mem_cons_of_mem _ h), hminted⟩

/-- A name assigned to another is this name with underscores. -/
lemma eq_underscored_of_mem_assignFresh {used names : List Text} {p : Text × Text}
    (hp : p ∈ assignFresh used names) : ∃ k, p.2 = underscored p.1 k := by
  induction names generalizing used with
  | nil => exact absurd hp List.not_mem_nil
  | cons name rest ih =>
      rw [assignFresh] at hp
      rcases List.mem_cons.mp hp with rfl | hp
      · obtain ⟨k, hk⟩ := freshName_eq used name
        exact ⟨k + 1, hk⟩
      · exact ih hp

/-- Assigned names differ from each other. -/
lemma assignFresh_nodup (used names : List Text) :
    ((assignFresh used names).map Prod.snd).Nodup := by
  induction names generalizing used with
  | nil => exact List.nodup_nil
  | cons name rest ih =>
      rw [assignFresh, List.map_cons]
      refine List.nodup_cons.mpr ⟨?_, ih _⟩
      intro h
      obtain ⟨p, hp, heq⟩ := List.mem_map.mp h
      exact (notMem_of_mem_assignFresh hp).1 (heq ▸ List.mem_cons_self)

/-! ### The names of a tree -/

lemma mem_insertSorted {x name : Text} {l : List Text} :
    x ∈ insertSorted name l ↔ x = name ∨ x ∈ l := by
  induction l with
  | nil => simp [insertSorted]
  | cons other rest ih =>
      rw [insertSorted]
      split_ifs with heq hlt
      · simp [heq]
      · simp
      · rw [List.mem_cons, ih, List.mem_cons]
        tauto

namespace Tree

lemma mem_mintedNames {x : Text} {t : Tree} :
    x ∈ t.mintedNames ↔ x ∈ t.names ∧ looksMinted x := by
  have hfold : ∀ l : List Text, x ∈ l.foldr insertSorted [] ↔ x ∈ l := by
    intro l
    induction l with
    | nil => simp
    | cons name rest ih => rw [List.foldr_cons, mem_insertSorted, ih, List.mem_cons]
  rw [mintedNames, hfold, List.mem_filter]

lemma names_rename (r : Text → Text) (t : Tree) : (t.rename r).names = t.names.map r := by
  induction t with
  | num value => rfl
  | var name => rfl
  | lam param body ih => simp [rename, names, ih]
  | app func arg ihf iha => simp [rename, names, ihf, iha]
  | letIn name bind body ihb ih => simp [rename, names, ihb, ih]

/-- What hygiene replaces a name by. -/
def newName (t : Tree) (name : Text) : Text := (t.freshNames.lookup name).getD name

lemma hygienic_eq (t : Tree) : t.hygienic = t.rename t.newName := rfl

/-- A name of the tree is either kept, and then it does not look minted, or
replaced by the name assigned to it. -/
lemma newName_cases {t : Tree} {x : Text} (hx : x ∈ t.names) :
    (¬ looksMinted x ∧ t.newName x = x) ∨ (x, t.newName x) ∈ t.freshNames := by
  cases hlook : t.freshNames.lookup x with
  | none =>
      left
      have hkeys : x ∉ t.freshNames.map Prod.fst := by
        intro h
        obtain ⟨p, hp, rfl⟩ := List.mem_map.mp h
        have := List.lookup_eq_none_iff.mp hlook p hp
        simp at this
      rw [freshNames, map_fst_assignFresh, mem_mintedNames] at hkeys
      exact ⟨fun h => hkeys ⟨hx, h⟩, by rw [newName, hlook]; rfl⟩
  | some fresh =>
      right
      rw [newName, hlook]
      exact mem_of_lookup hlook

/-- A name of the tree gets underscores, if it changes. -/
lemma exists_newName_eq {t : Tree} {x : Text} (hx : x ∈ t.names) :
    ∃ k, t.newName x = underscored x k := by
  rcases newName_cases hx with ⟨-, heq⟩ | hmem
  · exact ⟨0, heq.trans (List.append_nil x).symm⟩
  · exact eq_underscored_of_mem_assignFresh hmem

/-- The new name of a name of the tree does not look minted. -/
lemma not_looksMinted_newName {t : Tree} {x : Text} (hx : x ∈ t.names) :
    ¬ looksMinted (t.newName x) := by
  rcases newName_cases hx with ⟨hminted, heq⟩ | hmem
  · rw [heq]
    exact hminted
  · exact (notMem_of_mem_assignFresh hmem).2

/-- Hygiene is injective on the names of the tree. -/
lemma injOn_newName (t : Tree) : Set.InjOn t.newName {x | x ∈ t.names} := by
  intro x hx y hy heq
  rcases newName_cases hx with ⟨-, hxeq⟩ | hxmem
  · rcases newName_cases hy with ⟨-, hyeq⟩ | hymem
    · rw [← hxeq, ← hyeq, heq]
    · -- a kept name is in use, a fresh one is not
      refine absurd hx fun h => (notMem_of_mem_assignFresh hymem).1 ?_
      change t.newName y ∈ t.names
      rw [← heq, hxeq]
      exact h
  · rcases newName_cases hy with ⟨-, hyeq⟩ | hymem
    · refine absurd hy fun h => (notMem_of_mem_assignFresh hxmem).1 ?_
      change t.newName x ∈ t.names
      rw [heq, hyeq]
      exact h
    · have hpair : (x, t.newName x) = (y, t.newName y) :=
        List.inj_on_of_nodup_map (assignFresh_nodup _ _) hxmem hymem heq
      exact congrArg Prod.fst hpair

/-- **Hygiene leaves no minted name.** -/
lemma not_looksMinted_of_mem_hygienic {t : Tree} {x : Text} (hx : x ∈ t.hygienic.names) :
    ¬ looksMinted x := by
  rw [hygienic_eq, names_rename] at hx
  obtain ⟨y, hy, rfl⟩ := List.mem_map.mp hx
  exact not_looksMinted_newName hy

/-- Hygiene renames the free names in place. -/
lemma free_hygienic (t : Tree) : t.hygienic.free = t.free.map t.newName :=
  t.free_rename t.injOn_newName

end Tree

end FlatClosure
