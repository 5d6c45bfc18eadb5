/-
Lists of pairs, pieces of texts, lists without repeats, and computations that may fail.

* `lookup_cons_of_ne`, `mem_of_lookup`, `lookup_of_mem`: how names are looked up.
* `Text.splitOn_append_cons`, `Text.splitOn_join`: texts are cut where they were joined.
* `eraseDups_of_nodup`, `eraseDups_filter`, `eraseDups_append`, `eraseDups_map`:
  dropping the repeats of a list.
* `Except.exists_of_bind_ok`: the parts of a computation that succeeds do.
* `Except.exists_mapM_ok`, `Except.forall₂_of_mapM_ok`: a computation for each
  member of a list.
-/
import Mathlib.Data.List.Forall2
import Mathlib.Data.List.Induction
import Mathlib.Data.List.Nodup
import Mathlib.Data.Set.Function
import FlatClosure.Text.Basic

namespace FlatClosure

/-! ### Lookup -/

section

variable {α : Type} {l : List (Text × α)} {x y : Text} {a b : α}

lemma lookup_cons_of_ne (h : x ≠ y) : List.lookup x ((y, a) :: l) = l.lookup x := by
  rw [List.lookup_cons, beq_eq_false_iff_ne.mpr h]

lemma eq_of_lookup_singleton (h : List.lookup x [(y, a)] = some b) : x = y ∧ a = b := by
  by_cases hx : x = y
  · rw [hx, List.lookup_cons_self] at h
    exact ⟨hx, Option.some.inj h⟩
  · rw [lookup_cons_of_ne hx] at h
    exact absurd h (by simp)

lemma mem_of_lookup (h : l.lookup x = some a) : (x, a) ∈ l := by
  obtain ⟨l₁, l₂, rfl, -⟩ := List.lookup_eq_some_iff.mp h
  exact List.mem_append_right _ List.mem_cons_self

/-- A key that occurs once is looked up to its value. -/
lemma lookup_of_mem (hnodup : (l.map Prod.fst).Nodup) (hmem : (x, a) ∈ l) :
    l.lookup x = some a := by
  induction l with
  | nil => exact absurd hmem List.not_mem_nil
  | cons p l ih =>
      obtain ⟨y, b⟩ := p
      obtain ⟨hnotMem, hnodup⟩ := List.nodup_cons.mp hnodup
      rcases List.mem_cons.mp hmem with heq | hmem
      · obtain ⟨rfl, rfl⟩ := Prod.mk.inj heq
        exact List.lookup_cons_self
      · have hkey : x ∈ l.map Prod.fst := List.mem_map.mpr ⟨(x, a), hmem, rfl⟩
        have hne : x ≠ y := fun heq => hnotMem (heq ▸ hkey)
        rw [lookup_cons_of_ne hne]
        exact ih hnodup hmem

end

/-- Every member of the right list is related to one of the left. -/
lemma exists_of_mem_right {α β : Type} {R : α → β → Prop} {as : List α} {bs : List β}
    (h : List.Forall₂ R as bs) {b : β} (hb : b ∈ bs) : ∃ a ∈ as, R a b := by
  induction h with
  | nil => exact absurd hb List.not_mem_nil
  | cons hab _ ih =>
      rcases List.mem_cons.mp hb with rfl | hb
      · exact ⟨_, List.mem_cons_self, hab⟩
      · obtain ⟨a, ha, hR⟩ := ih hb
        exact ⟨a, List.mem_cons_of_mem _ ha, hR⟩

/-! ### Cutting and joining texts -/

namespace Text

variable {sep : UInt8} {t piece : Text} {pieces : List Text}

lemma splitOn_ne_nil (sep : UInt8) (t : Text) : splitOn sep t ≠ [] := by
  fun_cases splitOn sep t <;> simp

lemma splitOn_cons_of_ne {b : UInt8} (hb : b ≠ sep) (h : splitOn sep t = piece :: pieces) :
    splitOn sep (b :: t) = (b :: piece) :: pieces := by
  rw [splitOn, if_neg hb, h]

lemma splitOn_of_notMem (h : sep ∉ t) : splitOn sep t = [t] := by
  induction t with
  | nil => rfl
  | cons b t ih =>
      obtain ⟨hb, ht⟩ := not_or.mp (mt List.mem_cons.mpr h)
      exact splitOn_cons_of_ne (Ne.symm hb) (ih ht)

/-- Two texts with the separator between them are cut there. -/
lemma splitOn_append_cons (sep : UInt8) (t t' : Text) :
    splitOn sep (t ++ sep :: t') = splitOn sep t ++ splitOn sep t' := by
  induction t with
  | nil => simp [splitOn]
  | cons b t ih =>
      by_cases hb : b = sep
      · rw [List.cons_append, splitOn, if_pos hb, ih, splitOn, if_pos hb, List.cons_append]
      · obtain ⟨piece, pieces, hpieces⟩ := List.exists_cons_of_ne_nil (splitOn_ne_nil sep t)
        rw [hpieces, List.cons_append] at ih
        rw [splitOn_cons_of_ne hb hpieces]
        exact splitOn_cons_of_ne hb ih

lemma notMem_of_mem_splitOn (h : piece ∈ splitOn sep t) : sep ∉ piece := by
  induction t generalizing piece with
  | nil => simp_all [splitOn]
  | cons b t ih =>
      by_cases hb : b = sep
      · rw [splitOn, if_pos hb] at h
        rcases List.mem_cons.mp h with rfl | h
        · exact List.not_mem_nil
        · exact ih h
      · obtain ⟨first, rest, hpieces⟩ := List.exists_cons_of_ne_nil (splitOn_ne_nil sep t)
        rw [splitOn_cons_of_ne hb hpieces] at h
        rcases List.mem_cons.mp h with rfl | h
        · have hfirst : sep ∉ first := ih (hpieces ▸ List.mem_cons_self)
          simp [hfirst, Ne.symm hb]
        · exact ih (hpieces ▸ List.mem_cons_of_mem _ h)

/-- Pieces without the separator are found again when they are joined by it. -/
lemma splitOn_join (hne : pieces ≠ []) (h : ∀ piece ∈ pieces, sep ∉ piece) :
    splitOn sep (join [sep] pieces) = pieces := by
  induction pieces with
  | nil => exact absurd rfl hne
  | cons piece rest ih =>
      have hpiece := splitOn_of_notMem (h piece List.mem_cons_self)
      cases rest with
      | nil => exact hpiece
      | cons next rest =>
          have hrest := ih (by simp) fun p hp => h p (List.mem_cons_of_mem _ hp)
          rw [join, List.append_assoc, List.singleton_append, splitOn_append_cons, hpiece, hrest,
            List.singleton_append]
          exact List.cons_ne_nil next rest

end Text

/-! ### Dropping repeats -/

section

variable {α β : Type} [BEq α] [LawfulBEq α] [BEq β] [LawfulBEq β]

/-- At the end of a list, a member is dropped if it has occurred before. -/
lemma eraseDups_concat (l : List α) (a : α) :
    (l ++ [a]).eraseDups = if a ∈ l then l.eraseDups else l.eraseDups ++ [a] := by
  rw [List.eraseDups_append]
  split_ifs with h <;> simp [List.removeAll, h, List.eraseDups_cons]

lemma eraseDups_of_nodup {l : List α} (h : l.Nodup) : l.eraseDups = l := by
  induction l using List.reverseRecOn with
  | nil => rfl
  | append_singleton l a ih =>
      obtain ⟨hl, -, hdisjoint⟩ := List.nodup_append'.mp h
      rw [eraseDups_concat, if_neg (List.disjoint_singleton.mp hdisjoint), ih hl]

lemma eraseDups_filter (p : α → Bool) (l : List α) :
    (l.filter p).eraseDups = l.eraseDups.filter p := by
  induction l using List.reverseRecOn with
  | nil => rfl
  | append_singleton l a ih =>
      rw [List.filter_append, eraseDups_concat]
      by_cases hp : p a
      · rw [List.filter_cons_of_pos hp, List.filter_nil, eraseDups_concat]
        by_cases ha : a ∈ l <;> simp [ha, hp, ih]
      · rw [List.filter_cons_of_neg hp, List.filter_nil, List.append_nil, ih]
        by_cases ha : a ∈ l <;> simp [ha, hp]

/-- A second part adds the members that the first one does not have. -/
lemma eraseDups_append (l l' : List α) :
    (l ++ l').eraseDups = l.eraseDups ++ l'.eraseDups.filter (· ∉ l.eraseDups) := by
  rw [List.eraseDups_append, List.removeAll, eraseDups_filter]
  congr 1
  exact List.filter_congr fun x _ => by simp

/-- Members that a function keeps apart are dropped before it or behind it. -/
lemma eraseDups_map {f : α → β} {l : List α} (hf : Set.InjOn f {x | x ∈ l}) :
    (l.map f).eraseDups = l.eraseDups.map f := by
  induction l using List.reverseRecOn with
  | nil => rfl
  | append_singleton l a ih =>
      have hl : Set.InjOn f {x | x ∈ l} := hf.mono fun x hx => List.mem_append_left _ hx
      have hmem : f a ∈ l.map f ↔ a ∈ l := by
        constructor
        · intro h
          obtain ⟨b, hb, heq⟩ := List.mem_map.mp h
          have hba : b = a := hf (List.mem_append_left _ hb) (by simp) heq
          exact hba ▸ hb
        · exact List.mem_map_of_mem
      rw [List.map_append, List.map_singleton, eraseDups_concat, eraseDups_concat, ih hl]
      by_cases ha : a ∈ l <;> simp [ha, hmem]

/-- The positions of different members are the numbers up to the length. -/
lemma map_idxOf_of_nodup {l : List α} (h : l.Nodup) :
    l.map (l.idxOf ·) = List.range l.length := by
  refine List.ext_getElem (by simp) fun i hi _ => ?_
  simp [h.idxOf_getElem i (by simpa using hi)]

end

lemma flatMap_filter {α β : Type} (p : α → Bool) (f : α → List β) (l : List α) :
    (l.filter p).flatMap f = l.flatMap fun a => if p a then f a else [] := by
  induction l with
  | nil => rfl
  | cons a l ih => by_cases hp : p a <;> simp [hp, ih]

/-! ### Computations that may fail -/

namespace Except

variable {ε α β : Type} {x : Except ε α} {b : β}

lemma exists_of_bind_ok {f : α → Except ε β} (h : (x >>= f) = .ok b) :
    ∃ a, x = .ok a ∧ f a = .ok b := by
  cases x with
  | error e => exact absurd h (by simp [bind, Except.bind])
  | ok a => exact ⟨a, rfl, h⟩

lemma exists_of_map_ok {f : α → β} (h : x.map f = .ok b) : ∃ a, x = .ok a ∧ b = f a := by
  cases x with
  | error e => exact absurd h (by simp [Except.map])
  | ok a => exact ⟨a, rfl, (Except.ok.inj h).symm⟩

lemma ok_bind (a : α) (f : α → Except ε β) : (.ok a >>= f) = f a := rfl

lemma mapError_eq_ok_iff {ε' : Type} {f : ε → ε'} {a : α} : x.mapError f = .ok a ↔ x = .ok a := by
  cases x <;> simp [Except.mapError]

/-- A computation that succeeds for each member of a list succeeds for the
list. -/
lemma exists_mapM_ok {f : α → Except ε β} {as : List α} (h : ∀ a ∈ as, ∃ b, f a = .ok b) :
    ∃ bs, as.mapM f = .ok bs ∧ List.Forall₂ (fun a b => f a = .ok b) as bs := by
  induction as with
  | nil => exact ⟨[], rfl, .nil⟩
  | cons a as ih =>
      obtain ⟨b, hb⟩ := h a List.mem_cons_self
      obtain ⟨bs, hbs, hall⟩ := ih fun a' ha' => h a' (List.mem_cons_of_mem a ha')
      refine ⟨b :: bs, ?_, .cons hb hall⟩
      rw [List.mapM_cons, hb, ok_bind, hbs]
      rfl

/-- Where a computation succeeds for a list, it succeeds for each member. -/
lemma forall₂_of_mapM_ok {f : α → Except ε β} {as : List α} {bs : List β}
    (h : as.mapM f = .ok bs) : List.Forall₂ (fun a b => f a = .ok b) as bs := by
  induction as generalizing bs with
  | nil => cases h; exact .nil
  | cons a as ih =>
      rw [List.mapM_cons] at h
      obtain ⟨b, hb, h⟩ := exists_of_bind_ok h
      obtain ⟨bs', hbs', h⟩ := exists_of_bind_ok h
      cases h
      exact .cons hb (ih hbs')

end Except

end FlatClosure
