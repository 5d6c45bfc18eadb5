/-
Numbers that conversion draws.

Conversion numbers the names that it mints by one counter, which it hands on from
one part of a tree to the next.

* `Expr.bindings`, `Expr.mentions`: the bindings of an expression with what they
  bind a name in, and the names that an expression refers to.
* `Converted.uses`: how often a number is used; `Tree.uses_convert`: each number
  that was drawn is used once, and no other is.
* `Tree.count_binders_convert`: names that do not look minted are bound as often as
  the tree binds them.
* `Tree.count_mentions_convert`: a temporary is referred to as often as it is
  bound; `Tree.body_of_mem_bindings_convert`: it is bound around its application.
* `Tree.convert_uses_each_number_once`: these facts, and that the minted names
  differ from each other and from all others.
-/
import FlatClosure.Proofs.Conversion

namespace FlatClosure

/-! ### Bindings and references of an expression -/

/-- A binding: a name and the expression in which it is bound. -/
structure Binding where
  name : Text
  body : Expr

namespace Expr

mutual

/-- The bindings of an expression, in the order of its binders. -/
def bindings : Expr → List Binding
  | num _ | ref _ | slot _ _ | missing => []
  | app _ arg => arg.bindings
  | closure _ captured => bindingsAll captured
  | letIn name bind body => ⟨name, body⟩ :: (bind.bindings ++ body.bindings)

/-- The bindings of expressions. -/
def bindingsAll : List Expr → List Binding
  | [] => []
  | e :: es => e.bindings ++ bindingsAll es

end

mutual

/-- The names that an expression reads, applies, or reads a slot of, from left to
right. -/
def mentions : Expr → List Text
  | num _ | missing => []
  | ref name => [name]
  | slot env _ => [env]
  | app func arg => func :: arg.mentions
  | closure _ captured => mentionsAll captured
  | letIn _ bind body => bind.mentions ++ body.mentions

/-- The names that expressions refer to, from left to right. -/
def mentionsAll : List Expr → List Text
  | [] => []
  | e :: es => e.mentions ++ mentionsAll es

end

lemma bindingsAll_eq (es : List Expr) : bindingsAll es = es.flatMap bindings := by
  induction es with
  | nil => rfl
  | cons e es ih => rw [bindingsAll, ih, List.flatMap_cons]

lemma mentionsAll_eq (es : List Expr) : mentionsAll es = es.flatMap mentions := by
  induction es with
  | nil => rfl
  | cons e es ih => rw [mentionsAll, ih, List.flatMap_cons]

lemma map_name_bindings (e : Expr) : e.bindings.map Binding.name = e.binders := by
  induction e using ind with
  | num value => rfl
  | ref name => rfl
  | slot env index => rfl
  | app func arg ih => exact ih
  | closure func captured ih =>
      rw [bindings, binders, bindingsAll_eq, bindersAll_eq, List.map_flatMap]
      exact List.flatMap_congr ih
  | letIn name bind body ihb ih => rw [bindings, List.map_cons, List.map_append, ihb, ih, binders]
  | missing => rfl

/-- Below a substitution of reads, a name is bound in the same expression, up to a
substitution. -/
lemma exists_of_mem_bindings_substitute {m : Subst} (hm : ∀ p ∈ m, p.2.IsRead) {e : Expr}
    {b : Binding} (hb : b ∈ (e.substitute m).bindings) :
    ∃ b' ∈ e.bindings, ∃ m', b = ⟨b'.name, b'.body.substitute m'⟩ := by
  induction e using ind generalizing m with
  | num value => exact absurd hb List.not_mem_nil
  | ref name =>
      have hbinders := (isRead_substitute_ref hm name).binders_eq_nil
      rw [← map_name_bindings, List.map_eq_nil_iff] at hbinders
      exact absurd (hbinders ▸ hb) List.not_mem_nil
  | slot env index => exact absurd hb List.not_mem_nil
  | app func arg ih => exact ih hm hb
  | closure func captured ih =>
      rw [substitute, bindings, bindingsAll_eq, substituteAll_eq, List.flatMap_map] at hb
      obtain ⟨c, hc, hb⟩ := List.mem_flatMap.mp hb
      obtain ⟨b', hb', heq⟩ := ih c hc hm hb
      refine ⟨b', ?_, heq⟩
      rw [bindings, bindingsAll_eq]
      exact List.mem_flatMap.mpr ⟨c, hc, hb'⟩
  | letIn name bind body ihb ih =>
      have hm' : ∀ p ∈ m.without name, p.2.IsRead := fun p hp => hm p (List.mem_filter.mp hp).1
      rw [substitute, bindings, List.mem_cons, List.mem_append] at hb
      rcases hb with rfl | hb | hb
      · exact ⟨⟨name, body⟩, List.mem_cons_self, _, rfl⟩
      · obtain ⟨b', hb', heq⟩ := ihb hm hb
        exact ⟨b', List.mem_cons_of_mem _ (List.mem_append_left _ hb'), heq⟩
      · obtain ⟨b', hb', heq⟩ := ih hm' hb
        exact ⟨b', List.mem_cons_of_mem _ (List.mem_append_right _ hb'), heq⟩
  | missing => exact absurd hb List.not_mem_nil

/-- A name that a substitution neither replaces nor brings in is referred to as
often as before. -/
lemma count_mentions_substitute {m : Subst} {x : Text}
    (hm : ∀ p ∈ m, p.1 ≠ x ∧ x ∉ p.2.mentions) (e : Expr) :
    (e.substitute m).mentions.count x = e.mentions.count x := by
  induction e using ind generalizing m with
  | num value => rfl
  | ref name =>
      rw [substitute_ref]
      cases hlook : m.lookup name with
      | none => rfl
      | some replacement =>
          obtain ⟨hne, hnot⟩ := hm (name, replacement) (mem_of_lookup hlook)
          rw [Option.getD_some, List.count_eq_zero_of_not_mem hnot, mentions,
            List.count_singleton, if_neg (by simpa using hne)]
  | slot env index => rfl
  | app func arg ih => rw [substitute, mentions, mentions, List.count_cons, ih hm, List.count_cons]
  | closure func captured ih =>
      simp only [substitute, mentions, mentionsAll_eq, substituteAll_eq, List.flatMap_map,
        List.count_flatMap]
      exact congrArg List.sum (List.map_congr_left fun c hc => ih c hc hm)
  | letIn name bind body ihb ih =>
      have hm' : ∀ p ∈ m.without name, p.1 ≠ x ∧ x ∉ p.2.mentions :=
        fun p hp => hm p (List.mem_filter.mp hp).1
      simp only [substitute, mentions, List.count_append, ihb hm, ih hm']
  | missing => rfl

end Expr

/-! ### Names of a conversion -/

namespace Converted

/-- The names that the declarations and the expression of a conversion bind. -/
def binders (c : Converted) : List Text := c.decls.flatMap (·.body.binders) ++ c.expr.binders

/-- The bindings of the declarations and of the expression. -/
def bindings (c : Converted) : List Binding := c.decls.flatMap (·.body.bindings) ++ c.expr.bindings

/-- The names that the declarations and the expression refer to. -/
def mentions (c : Converted) : List Text := c.decls.flatMap (·.body.mentions) ++ c.expr.mentions

lemma map_name_bindings (c : Converted) : c.bindings.map Binding.name = c.binders := by
  simp only [bindings, binders, List.map_append, List.map_flatMap, Expr.map_name_bindings]

/-- How many declarations, environments and temporaries have a number. -/
def uses (c : Converted) (k : Nat) : Nat :=
  (c.decls.map Decl.name).count (mintCode k) + (c.decls.map Decl.env).count (mintEnv k) +
    c.binders.count (mintTemp k)

/-- The bound names that look minted. -/
def temps (c : Converted) : List Text := c.binders.filter looksMinted

/-- The names that conversion mints: of declarations, of environments and of
temporaries. -/
def mintedNames (c : Converted) : List Text :=
  c.decls.map Decl.name ++ c.decls.map Decl.env ++ c.temps

/-- Whether a name is bound once, around an application of it, and is not referred
to in any other place. -/
def BindsCallee (c : Converted) (x : Text) : Prop :=
  ∃ arg, c.bindings.filter (·.name == x) = [⟨x, .app x arg⟩] ∧ c.mentions.count x = 1

end Converted

namespace Tree

/-- The names that a tree binds other than as parameters. -/
def letNames : Tree → List Text
  | num _ | var _ => []
  | lam _ body => body.letNames
  | app func arg => func.letNames ++ arg.letNames
  | letIn name bind body => name :: (bind.letNames ++ body.letNames)

lemma letNames_subset_names (t : Tree) : t.letNames ⊆ t.names := by
  induction t with
  | num value => exact List.nil_subset _
  | var name => exact List.nil_subset _
  | lam param body ih => exact List.subset_cons_of_subset _ ih
  | app func arg ihf iha =>
      exact List.append_subset.mpr ⟨List.subset_append_of_subset_left _ ihf,
        List.subset_append_of_subset_right _ iha⟩
  | letIn name bind body ihb ih =>
      exact List.cons_subset_cons _ (List.append_subset.mpr
        ⟨List.subset_append_of_subset_left _ ihb, List.subset_append_of_subset_right _ ih⟩)

/-- A function leaves its bindings to its declaration. -/
lemma binders_convert_lam (param : Text) (body : Tree) (n : Nat) :
    ((lam param body).convert n).binders = (body.convert (n + 2)).binders := by
  have hcaptured : Expr.bindersAll ((lam param body).free.map .ref) = [] := by
    rw [Expr.bindersAll_eq, List.flatMap_map]
    exact List.flatMap_eq_nil_iff.mpr fun x _ => rfl
  simp only [Converted.binders, convert, List.flatMap_append, List.flatMap_cons, List.flatMap_nil,
    List.append_nil, Expr.binders, hcaptured,
    Expr.binders_substitute fun p hp => isRead_of_mem_slots hp]

/-! ### Each number is used once -/

section

variable {t : Tree} (ht : ∀ x ∈ t.names, ¬ looksMinted x)

include ht

/-- **Each number that was drawn is used once**, and no other is. -/
lemma uses_convert (n k : Nat) :
    (t.convert n).uses k = if n ≤ k ∧ k < (t.convert n).next then 1 else 0 := by
  induction t generalizing n with
  | num value => exact (if_neg fun h => absurd h.2 (Nat.not_lt.mpr h.1)).symm
  | var name => exact (if_neg fun h => absurd h.2 (Nat.not_lt.mpr h.1)).symm
  | lam param body ih =>
      have hbody := ih (List.forall_mem_cons.mp ht).2 (n + 2)
      have hle := body.le_next_convert (n + 2)
      -- besides those of the body, one number is that of the environment and one of the code
      have huses : ((lam param body).convert n).uses k =
          (body.convert (n + 2)).uses k + (if n + 1 = k then 1 else 0) +
            (if n = k then 1 else 0) := by
        rw [Converted.uses, binders_convert_lam, Converted.uses]
        simp only [convert, List.map_append, List.map_cons, List.map_nil, List.count_append,
          List.count_singleton, beq_iff_eq, mintCode_injective.eq_iff, mintEnv_injective.eq_iff]
        omega
      have hnext : ((lam param body).convert n).next = (body.convert (n + 2)).next := rfl
      rw [huses, hbody, hnext]
      split_ifs <;> omega
  | app func arg ihf iha =>
      obtain ⟨hfunc, harg⟩ := List.forall_mem_append.mp ht
      have hle := func.le_next_convert n
      have hle' := arg.le_next_convert ((func.convert n).next + 1)
      have huses : ((app func arg).convert n).uses k =
          (func.convert n).uses k + (arg.convert ((func.convert n).next + 1)).uses k +
            (if (func.convert n).next = k then 1 else 0) := by
        simp only [Converted.uses, Converted.binders, convert, List.map_append,
          List.flatMap_append, Expr.binders, List.count_append, List.count_cons, beq_iff_eq,
          mintTemp_injective.eq_iff]
        omega
      have hnext : ((app func arg).convert n).next =
          (arg.convert ((func.convert n).next + 1)).next := rfl
      rw [huses, ihf hfunc, iha harg, hnext]
      split_ifs <;> omega
  | letIn name bind body ihb ih =>
      obtain ⟨hname, ht⟩ := List.forall_mem_cons.mp ht
      obtain ⟨hbind, hbody⟩ := List.forall_mem_append.mp ht
      have hle := bind.le_next_convert n
      have hle' := body.le_next_convert (bind.convert n).next
      have hne : name ≠ mintTemp k := fun heq => hname (heq ▸ looksMinted_mintTemp k)
      have huses : ((letIn name bind body).convert n).uses k =
          (bind.convert n).uses k + (body.convert (bind.convert n).next).uses k := by
        simp only [Converted.uses, Converted.binders, convert, List.map_append,
          List.flatMap_append, Expr.binders, List.count_append, List.count_cons_of_ne hne]
        omega
      have hnext : ((letIn name bind body).convert n).next =
          (body.convert (bind.convert n).next).next := rfl
      rw [huses, ihb hbind, ih hbody, hnext]
      split_ifs <;> omega

end

/-- A name that does not look minted is bound as often as the tree binds it. -/
lemma count_binders_convert {x : Text} (hx : ¬ looksMinted x) (t : Tree) (n : Nat) :
    (t.convert n).binders.count x = t.letNames.count x := by
  induction t generalizing n with
  | num value => rfl
  | var name => rfl
  | lam param body ih => rw [binders_convert_lam, ih, letNames]
  | app func arg ihf iha =>
      have hne : mintTemp (func.convert n).next ≠ x := fun heq => hx (heq ▸ looksMinted_mintTemp _)
      have hfunc := ihf n
      have harg := iha ((func.convert n).next + 1)
      simp only [Converted.binders, convert, List.flatMap_append, Expr.binders, List.count_append,
        List.count_cons_of_ne hne, letNames] at hfunc harg ⊢
      omega
  | letIn name bind body ihb ih =>
      have hbind := ihb n
      have hbody := ih (bind.convert n).next
      simp only [Converted.binders, convert, List.flatMap_append, Expr.binders, List.count_append,
        List.count_cons, letNames] at hbind hbody ⊢
      omega

/-! ### Temporaries -/

/-- A temporary is no name of the environment or of the captured names of a
function. -/
lemma notMem_slots {names : Names} (hnames : ∀ x ∈ names, ¬ looksMinted x) (i k : Nat) :
    ∀ p ∈ slots (mintEnv i) names, p.1 ≠ mintTemp k ∧ mintTemp k ∉ p.2.mentions := by
  intro p hp
  obtain ⟨⟨x, j⟩, hq, rfl⟩ := List.mem_map.mp hp
  have hx : x ∈ names := List.fst_mem_of_mem_zipIdx hq
  have hne : x ≠ mintTemp k := fun heq => hnames x hx (heq ▸ looksMinted_mintTemp k)
  refine ⟨hne, fun hmem => ?_⟩
  exact mintEnv_ne_mintTemp i k (List.mem_singleton.mp hmem).symm

/-- **A temporary is referred to as often as it is bound.** -/
lemma count_mentions_convert {t : Tree} (ht : ∀ x ∈ t.names, ¬ looksMinted x) (n k : Nat) :
    (t.convert n).mentions.count (mintTemp k) = (t.convert n).binders.count (mintTemp k) := by
  induction t generalizing n with
  | num value => rfl
  | var name =>
      have hname := ht name (List.mem_singleton_self name)
      have hne : name ≠ mintTemp k := fun heq => hname (heq ▸ looksMinted_mintTemp k)
      simp [convert, Converted.mentions, Converted.binders, Expr.mentions, Expr.binders, hne]
  | lam param body ih =>
      have hfree : ∀ x ∈ (lam param body).free, ¬ looksMinted x :=
        fun x hx => ht x ((lam param body).free_subset_names hx)
      -- neither the slots nor the captured names are temporaries
      have hslots := notMem_slots hfree n k
      have hcaptured : mintTemp k ∉ Expr.mentionsAll ((lam param body).free.map .ref) := by
        rw [Expr.mentionsAll_eq, List.flatMap_map]
        intro hmem
        obtain ⟨x, hx, hmem⟩ := List.mem_flatMap.mp hmem
        exact hfree x hx (List.mem_singleton.mp hmem ▸ looksMinted_mintTemp k)
      rw [binders_convert_lam, ← ih (List.forall_mem_cons.mp ht).2]
      simp only [Converted.mentions, convert, List.flatMap_append, List.flatMap_cons,
        List.flatMap_nil, List.append_nil, List.count_append, Expr.mentions,
        Expr.count_mentions_substitute hslots, List.count_eq_zero_of_not_mem hcaptured]
      omega
  | app func arg ihf iha =>
      obtain ⟨hfunc, harg⟩ := List.forall_mem_append.mp ht
      have hcallee := ihf hfunc n
      have hargument := iha harg ((func.convert n).next + 1)
      simp only [Converted.mentions, Converted.binders, convert, List.flatMap_append,
        Expr.mentions, Expr.binders, List.count_append, List.count_cons] at hcallee hargument ⊢
      omega
  | letIn name bind body ihb ih =>
      obtain ⟨hname, ht⟩ := List.forall_mem_cons.mp ht
      obtain ⟨hbind, hbody⟩ := List.forall_mem_append.mp ht
      have hne : name ≠ mintTemp k := fun heq => hname (heq ▸ looksMinted_mintTemp k)
      have hbound := ihb hbind n
      have hrest := ih hbody (bind.convert n).next
      simp only [Converted.mentions, Converted.binders, convert, List.flatMap_append,
        Expr.mentions, Expr.binders, List.count_append, List.count_cons_of_ne hne]
        at hbound hrest ⊢
      omega

/-- **A temporary is bound around its application.** -/
lemma body_of_mem_bindings_convert {t : Tree} (ht : ∀ x ∈ t.names, ¬ looksMinted x) {n : Nat}
    {b : Binding} (hb : b ∈ (t.convert n).bindings) (hminted : looksMinted b.name) :
    ∃ arg, b.body = .app b.name arg := by
  induction t generalizing n b with
  | num value => exact absurd hb List.not_mem_nil
  | var name => exact absurd hb List.not_mem_nil
  | lam param body ih =>
      have hcaptured : Expr.bindingsAll ((lam param body).free.map .ref) = [] := by
        rw [Expr.bindingsAll_eq, List.flatMap_map]
        exact List.flatMap_eq_nil_iff.mpr fun x _ => rfl
      simp only [Converted.bindings, convert, List.flatMap_append, List.flatMap_cons,
        List.flatMap_nil, List.append_nil, Expr.bindings, hcaptured, List.mem_append] at hb
      have hbody := (List.forall_mem_cons.mp ht).2
      rcases hb with hb | hb
      · exact ih hbody (List.mem_append_left _ hb) hminted
      · -- a substitution does not change what is applied
        obtain ⟨b', hb', m, rfl⟩ :=
          Expr.exists_of_mem_bindings_substitute (fun p hp => isRead_of_mem_slots hp) hb
        obtain ⟨arg, harg⟩ := ih hbody (List.mem_append_right _ hb') hminted
        exact ⟨arg.substitute m, by rw [harg, Expr.substitute]⟩
  | app func arg ihf iha =>
      obtain ⟨hfunc, harg⟩ := List.forall_mem_append.mp ht
      simp only [Converted.bindings, convert, List.flatMap_append, Expr.bindings,
        List.mem_append, List.mem_cons] at hb
      rcases hb with (hb | hb) | rfl | hb | hb
      · exact ihf hfunc (List.mem_append_left _ hb) hminted
      · exact iha harg (List.mem_append_left _ hb) hminted
      · exact ⟨_, rfl⟩
      · exact ihf hfunc (List.mem_append_right _ hb) hminted
      · exact iha harg (List.mem_append_right _ hb) hminted
  | letIn name bind body ihb ih =>
      obtain ⟨hname, ht⟩ := List.forall_mem_cons.mp ht
      obtain ⟨hbind, hbody⟩ := List.forall_mem_append.mp ht
      simp only [Converted.bindings, convert, List.flatMap_append, Expr.bindings,
        List.mem_append, List.mem_cons] at hb
      rcases hb with (hb | hb) | rfl | hb | hb
      · exact ihb hbind (List.mem_append_left _ hb) hminted
      · exact ih hbody (List.mem_append_left _ hb) hminted
      · exact absurd hminted hname
      · exact ihb hbind (List.mem_append_right _ hb) hminted
      · exact ih hbody (List.mem_append_right _ hb) hminted

/-- **A temporary is bound once, around the only reference to it.** -/
lemma bindsCallee_convert {t : Tree} (ht : ∀ x ∈ t.names, ¬ looksMinted x) {n k : Nat}
    (hk : mintTemp k ∈ (t.convert n).binders) : (t.convert n).BindsCallee (mintTemp k) := by
  have hcount : (t.convert n).binders.count (mintTemp k) = 1 := by
    have hpos := List.count_pos_iff.mpr hk
    have huses := uses_convert ht n k
    rw [Converted.uses] at huses
    split_ifs at huses <;> omega
  have hlength : ((t.convert n).bindings.filter (·.name == mintTemp k)).length = 1 := by
    rw [← hcount, ← Converted.map_name_bindings, List.count_eq_countP, List.countP_map,
      List.countP_eq_length_filter]
    rfl
  obtain ⟨⟨name, body⟩, hsingle⟩ := List.length_eq_one_iff.mp hlength
  obtain ⟨hb, hname⟩ := List.mem_filter.mp (hsingle ▸ List.mem_singleton_self _)
  obtain rfl : name = mintTemp k := eq_of_beq hname
  obtain ⟨arg, hbody⟩ := body_of_mem_bindings_convert ht hb (looksMinted_mintTemp k)
  refine ⟨arg, hsingle.trans ?_, by rw [count_mentions_convert ht, hcount]⟩
  exact congrArg (fun body => [Binding.mk (mintTemp k) body]) hbody

/-! ### Minted names -/

/-- What is bound are the names that the tree binds, and temporaries. -/
lemma binders_convert_perm {t : Tree} (ht : ∀ x ∈ t.names, ¬ looksMinted x) (n : Nat) :
    (t.convert n).binders.Perm ((t.convert n).temps ++ t.letNames) := by
  refine List.perm_iff_count.mpr fun x => ?_
  rw [List.count_append, Converted.temps]
  by_cases hx : looksMinted x
  · have hnot : x ∉ t.letNames := fun hmem => ht x (t.letNames_subset_names hmem) hx
    rw [List.count_filter hx, List.count_eq_zero_of_not_mem hnot, Nat.add_zero]
  · have hnot : x ∉ (t.convert n).binders.filter looksMinted :=
      fun hmem => hx (List.mem_filter.mp hmem).2
    rw [List.count_eq_zero_of_not_mem hnot, count_binders_convert hx, Nat.zero_add]

/-- A list of names that are made from numbers has no repeats if each number occurs
at most once. -/
lemma nodup_of_count_le_one (mint : Nat → Text) {names : List Text}
    (hform : ∀ x ∈ names, ∃ k, x = mint k) (hcount : ∀ k, names.count (mint k) ≤ 1) :
    names.Nodup := by
  refine List.nodup_iff_count_le_one.mpr fun x => ?_
  by_cases hx : x ∈ names
  · obtain ⟨k, rfl⟩ := hform x hx
    exact hcount k
  · rw [List.count_eq_zero_of_not_mem hx]
    exact Nat.zero_le 1

section

variable {t : Tree} (ht : ∀ x ∈ t.names, ¬ looksMinted x) {n : Nat}

include ht

/-- The names of a declaration: code and environment are minted, the argument is a
name of the tree. -/
lemma names_of_mem_decls_convert {d : Decl} (hd : d ∈ (t.convert n).decls) :
    ∃ k, d.name = mintCode (k + 1) ∧ d.env = mintEnv k ∧ ¬ looksMinted d.arg := by
  obtain ⟨⟨param, body⟩, -, hnames, k, rfl⟩ := exists_of_mem_right (t.forall₂_functions ht n) hd
  exact ⟨k, rfl, rfl, hnames param List.mem_cons_self⟩

lemma eq_mintTemp_of_mem_temps {x : Text} (hx : x ∈ (t.convert n).temps) :
    ∃ k, x = mintTemp k := by
  obtain ⟨hbinders, hminted⟩ := List.mem_filter.mp hx
  rcases List.mem_append.mp hbinders with hbinders | hbinders
  · obtain ⟨d, hd, hbinders⟩ := List.mem_flatMap.mp hbinders
    obtain ⟨⟨param, body⟩, -, hnames, k, rfl⟩ := exists_of_mem_right (t.forall₂_functions ht n) hd
    rw [functionDecl, Expr.binders_substitute fun p hp => isRead_of_mem_slots hp] at hbinders
    exact (mem_names_of_mem_binders_convert hbinders).resolve_left
      fun hmem => hnames x (List.mem_cons_of_mem _ hmem) hminted
  · exact (mem_names_of_mem_binders_convert hbinders).resolve_left fun hmem => ht x hmem hminted

/-- **The minted names differ from each other.** -/
lemma nodup_mintedNames_convert (n : Nat) : (t.convert n).mintedNames.Nodup := by
  have hle : ∀ k, (t.convert n).uses k ≤ 1 := by
    intro k
    rw [uses_convert ht]
    split_ifs <;> omega
  have henvs : ((t.convert n).decls.map Decl.env).Nodup := by
    refine nodup_of_count_le_one mintEnv (fun x hx => ?_) fun k => ?_
    · obtain ⟨d, hd, rfl⟩ := List.mem_map.mp hx
      obtain ⟨k, -, henv, -⟩ := names_of_mem_decls_convert ht hd
      exact ⟨k, henv⟩
    · have huses := hle k
      rw [Converted.uses] at huses
      omega
  have htemps : (t.convert n).temps.Nodup := by
    refine nodup_of_count_le_one mintTemp (fun x hx => eq_mintTemp_of_mem_temps ht hx) fun k => ?_
    have huses := hle k
    rw [Converted.uses] at huses
    rw [Converted.temps, List.count_filter (looksMinted_mintTemp k)]
    omega
  -- names of different kinds begin differently
  refine List.Nodup.append (List.Nodup.append (t.nodup_names_convert n) henvs ?_) htemps ?_
  · intro x hname henv
    obtain ⟨d, hd, rfl⟩ := List.mem_map.mp hname
    obtain ⟨d', hd', heq⟩ := List.mem_map.mp henv
    obtain ⟨k, hk, -⟩ := names_of_mem_decls_convert ht hd
    obtain ⟨k', -, hk', -⟩ := names_of_mem_decls_convert ht hd'
    exact mintCode_ne_mintEnv _ _ (hk.symm.trans (heq.symm.trans hk'))
  · intro x hx htemp
    obtain ⟨j, rfl⟩ := eq_mintTemp_of_mem_temps ht htemp
    rcases List.mem_append.mp hx with hx | hx
    · obtain ⟨d, hd, heq⟩ := List.mem_map.mp hx
      obtain ⟨k, hk, -⟩ := names_of_mem_decls_convert ht hd
      exact mintCode_ne_mintTemp _ _ (hk.symm.trans heq)
    · obtain ⟨d, hd, heq⟩ := List.mem_map.mp hx
      obtain ⟨k, -, hk, -⟩ := names_of_mem_decls_convert ht hd
      exact mintEnv_ne_mintTemp _ _ (hk.symm.trans heq)

lemma looksMinted_of_mem_mintedNames {x : Text} (hx : x ∈ (t.convert n).mintedNames) :
    looksMinted x := by
  rcases List.mem_append.mp hx with hx | hx
  · rcases List.mem_append.mp hx with hx | hx
    · obtain ⟨d, hd, rfl⟩ := List.mem_map.mp hx
      obtain ⟨k, hname, -⟩ := names_of_mem_decls_convert ht hd
      exact hname ▸ looksMinted_mintCode _
    · obtain ⟨d, hd, rfl⟩ := List.mem_map.mp hx
      obtain ⟨k, -, henv, -⟩ := names_of_mem_decls_convert ht hd
      exact henv ▸ looksMinted_mintEnv _
  · exact (List.mem_filter.mp hx).2

/-- **The minted names differ from all names that come from the tree.** -/
lemma disjoint_mintedNames_convert (n : Nat) :
    (t.convert n).mintedNames.Disjoint ((t.convert n).decls.map Decl.arg ++ t.letNames) := by
  intro x hx hx'
  have hminted := looksMinted_of_mem_mintedNames ht hx
  rcases List.mem_append.mp hx' with hx' | hx'
  · obtain ⟨d, hd, rfl⟩ := List.mem_map.mp hx'
    obtain ⟨k, -, -, harg⟩ := names_of_mem_decls_convert ht hd
    exact harg hminted
  · exact ht x (t.letNames_subset_names hx') hminted

end

/-- **Fresh names are unique and none is skipped.** Conversion draws two numbers for
each function and one for each application. If no name of the tree looks minted,
each of these numbers is that of one declaration, or of one environment, or of one
temporary, and of nothing else. A temporary is bound around an application of it,
which is the only reference to it in the declarations and the expression.

What is bound are the temporaries and the names that the tree binds, and the minted
names differ from each other, from these names and from all arguments. -/
theorem convert_uses_each_number_once (t : Tree) (n : Nat) :
    (t.convert n).next = n + 2 * t.lamCount + t.appCount ∧
    ((∀ x ∈ t.names, ¬ looksMinted x) →
      (∀ k, (t.convert n).uses k = if n ≤ k ∧ k < (t.convert n).next then 1 else 0) ∧
      (∀ k, mintTemp k ∈ (t.convert n).binders → (t.convert n).BindsCallee (mintTemp k)) ∧
      (t.convert n).binders.Perm ((t.convert n).temps ++ t.letNames) ∧
      (t.convert n).mintedNames.Nodup ∧
      (t.convert n).mintedNames.Disjoint ((t.convert n).decls.map Decl.arg ++ t.letNames)) :=
  ⟨t.next_convert n, fun ht => ⟨uses_convert ht n, fun _ hk => bindsCallee_convert ht hk,
    binders_convert_perm ht n, nodup_mintedNames_convert ht n, disjoint_mintedNames_convert ht n⟩⟩

/-- A function is applied inside another one, whose result is bound to a name and
applied. -/
theorem convert_uses_each_number_once_nested :
    let t := letIn "f" (lam "x" (lam "y" (app (app (var "x") (var "y")) (var "z"))))
      (app (var "f") (num 1))
    (∀ x ∈ t.names, ¬ looksMinted x) ∧ (t.convert 8).next = 15 ∧
    (t.convert 8).BindsCallee (mintTemp 13) ∧ (t.convert 8).mintedNames.length = 7 ∧
    (t.convert 8).mintedNames.Nodup := by
  intro t
  have ht : ∀ x ∈ t.names, ¬ looksMinted x := by decide
  obtain ⟨hnext, hall⟩ := convert_uses_each_number_once t 8
  obtain ⟨-, hcallee, -, hnodup, -⟩ := hall ht
  exact ⟨ht, hnext, hcallee 13 (by decide +kernel), by decide +kernel, hnodup⟩

end Tree

end FlatClosure
