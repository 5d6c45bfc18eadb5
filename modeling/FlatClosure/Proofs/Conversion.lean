/-
What conversion produces.

* `Tree.lamCount`, `Tree.appCount`, `Tree.next_convert`,
  `Tree.length_decls_convert`: conversion draws two numbers for a function and
  one for an application, and makes one declaration for each function.
* `Tree.exists_name_of_mem_decls`, `Tree.nodup_names_convert`: the
  declarations are named by different numbers of the interval that was drawn.
* `lookup_slots`, `Subst.lookup_without`, `Expr.substitute_nil`: substitutions
  of slots for captured names.
* `Tree.wellFormed_convert`, `Tree.declsWellFormed_convert`: what is left of a
  tree is well formed wherever its free names can be read, and so is every
  declaration over the earlier ones.
* `Tree.functions`, `Tree.functionDecl`, `Tree.forall₂_functions`: the functions
  of a tree, and their declarations.
* `Tree.builtNames_convert_perm`: one closure is built for each declaration.
* `Tree.mem_names_of_mem_binders_convert`: what is left of a tree binds names of
  the tree and temporaries.
* `Tree.free_expr_convert`: what is left of a tree has the free names of the
  tree, in their order.
* `Tree.toProgram_sound`: these facts, for the program of a tree.
-/
import FlatClosure.Program.OfTree
import FlatClosure.Proofs.Basic
import FlatClosure.Proofs.Hygiene
import FlatClosure.Proofs.WellFormed

namespace FlatClosure

/-! ### Numbers and names -/

namespace Tree

/-- The number of functions of a tree. -/
def lamCount : Tree → Nat
  | num _ | var _ => 0
  | lam _ body => body.lamCount + 1
  | app func arg => func.lamCount + arg.lamCount
  | letIn _ bind body => bind.lamCount + body.lamCount

/-- The number of applications of a tree. -/
def appCount : Tree → Nat
  | num _ | var _ => 0
  | lam _ body => body.appCount
  | app func arg => func.appCount + arg.appCount + 1
  | letIn _ bind body => bind.appCount + body.appCount

lemma lamCount_rename (r : Text → Text) (t : Tree) : (t.rename r).lamCount = t.lamCount := by
  induction t with
  | num value => rfl
  | var name => rfl
  | lam param body ih => simp [rename, lamCount, ih]
  | app func arg ihf iha => simp [rename, lamCount, ihf, iha]
  | letIn name bind body ihb ih => simp [rename, lamCount, ihb, ih]

/-- Conversion draws two numbers for each function and one for each
application. -/
lemma next_convert (t : Tree) (n : Nat) :
    (t.convert n).next = n + 2 * t.lamCount + t.appCount := by
  induction t generalizing n with
  | num value => simp [convert, lamCount, appCount]
  | var name => simp [convert, lamCount, appCount]
  | lam param body ih =>
      simp only [convert, lamCount, appCount, ih]
      omega
  | app func arg ihf iha =>
      simp only [convert, lamCount, appCount, ihf, iha]
      omega
  | letIn name bind body ihb ih =>
      simp only [convert, lamCount, appCount, ihb, ih]
      omega

lemma le_next_convert (t : Tree) (n : Nat) : n ≤ (t.convert n).next := by
  rw [next_convert]
  omega

/-- There is one declaration for each function. -/
lemma length_decls_convert (t : Tree) (n : Nat) :
    (t.convert n).decls.length = t.lamCount := by
  induction t generalizing n with
  | num value => rfl
  | var name => rfl
  | lam param body ih => simp [convert, lamCount, ih]
  | app func arg ihf iha => simp [convert, lamCount, ihf, iha]
  | letIn name bind body ihb ih => simp [convert, lamCount, ihb, ih]

/-- A declaration is named by a number that was drawn for it. -/
lemma exists_name_of_mem_decls {t : Tree} {n : Nat} {d : Decl}
    (hd : d ∈ (t.convert n).decls) :
    ∃ k, n ≤ k ∧ k < (t.convert n).next ∧ d.name = mintCode k := by
  induction t generalizing n with
  | num value => exact absurd hd List.not_mem_nil
  | var name => exact absurd hd List.not_mem_nil
  | lam param body ih =>
      rcases List.mem_append.mp hd with hd | hd
      · obtain ⟨k, hle, hlt, hname⟩ := ih hd
        exact ⟨k, by omega, hlt, hname⟩
      · have hle := body.le_next_convert (n + 2)
        rw [List.mem_singleton.mp hd]
        exact ⟨n + 1, by omega, by simp only [convert]; omega, rfl⟩
  | app func arg ihf iha =>
      have hle := func.le_next_convert n
      have hle' := arg.le_next_convert ((func.convert n).next + 1)
      rcases List.mem_append.mp hd with hd | hd
      · obtain ⟨k, hk, hlt, hname⟩ := ihf hd
        exact ⟨k, hk, by simp only [convert]; omega, hname⟩
      · obtain ⟨k, hk, hlt, hname⟩ := iha hd
        exact ⟨k, by omega, hlt, hname⟩
  | letIn name bind body ihb ih =>
      have hle := bind.le_next_convert n
      have hle' := body.le_next_convert (bind.convert n).next
      rcases List.mem_append.mp hd with hd | hd
      · obtain ⟨k, hk, hlt, hname⟩ := ihb hd
        exact ⟨k, hk, by simp only [convert]; omega, hname⟩
      · obtain ⟨k, hk, hlt, hname⟩ := ih hd
        exact ⟨k, by omega, hlt, hname⟩

/-- Declarations from disjoint intervals have different names. -/
lemma disjoint_names_convert {t t' : Tree} {n n' : Nat} (h : (t.convert n).next ≤ n') :
    ((t.convert n).decls.map Decl.name).Disjoint ((t'.convert n').decls.map Decl.name) := by
  intro name hname hname'
  obtain ⟨d, hd, rfl⟩ := List.mem_map.mp hname
  obtain ⟨d', hd', heq⟩ := List.mem_map.mp hname'
  obtain ⟨k, -, hlt, hk⟩ := exists_name_of_mem_decls hd
  obtain ⟨k', hle, -, hk'⟩ := exists_name_of_mem_decls hd'
  rw [hk, hk'] at heq
  have := mintCode_injective heq
  omega

/-- The names of the declarations are pairwise different. -/
lemma nodup_names_convert (t : Tree) (n : Nat) :
    ((t.convert n).decls.map Decl.name).Nodup := by
  induction t generalizing n with
  | num value => exact List.nodup_nil
  | var name => exact List.nodup_nil
  | lam param body ih =>
      simp only [convert, List.map_append, List.map_cons, List.map_nil]
      refine List.Nodup.append (ih _) (List.nodup_singleton _) ?_
      rw [List.disjoint_singleton]
      intro hmem
      obtain ⟨d, hd, heq⟩ := List.mem_map.mp hmem
      obtain ⟨k, hle, -, hname⟩ := exists_name_of_mem_decls hd
      have := mintCode_injective (hname.symm.trans heq)
      omega
  | app func arg ihf iha =>
      simp only [convert, List.map_append]
      exact List.Nodup.append (ihf _) (iha _) (disjoint_names_convert (Nat.le_succ _))
  | letIn name bind body ihb ih =>
      simp only [convert, List.map_append]
      exact List.Nodup.append (ihb _) (ih _) (disjoint_names_convert le_rfl)

end Tree

/-! ### Substitution of slots -/

/-- Dropping a name from a substitution only affects that name. -/
lemma Subst.lookup_without (m : Subst) (name x : Text) :
    (m.without name).lookup x = if x = name then none else m.lookup x := by
  induction m with
  | nil => simp [Subst.without]
  | cons p m ih =>
      obtain ⟨y, e⟩ := p
      by_cases hy : y = name
      · have hdrop : Subst.without ((y, e) :: m) name = Subst.without m name := by
          simp [Subst.without, hy]
        rw [hdrop, ih, List.lookup_cons, hy]
        by_cases hx : x = name <;> simp [hx, beq_eq_false_iff_ne.mpr]
      · have hkeep : Subst.without ((y, e) :: m) name = (y, e) :: Subst.without m name := by
          simp [Subst.without, hy]
        rw [hkeep, List.lookup_cons, List.lookup_cons, ih]
        by_cases hx : x = y
        · simp [hx, hy]
        · simp [beq_eq_false_iff_ne.mpr hx]

lemma Subst.without_nil (name : Text) : Subst.without [] name = [] := rfl

/-- A captured name is replaced by the slot at its first position. -/
lemma lookup_slots (env : Text) (captured : Names) (x : Text) :
    (slots env captured).lookup x =
      if x ∈ captured then some (.slot env (captured.idxOf x)) else none := by
  have hfrom : ∀ k : Nat, List.lookup x ((captured.zipIdx k).map fun p =>
      (p.1, Expr.slot env p.2)) =
      if x ∈ captured then some (.slot env (captured.idxOf x + k : Nat)) else none := by
    induction captured with
    | nil => simp
    | cons name captured ih =>
        intro k
        rw [List.zipIdx_cons, List.map_cons, List.lookup_cons, ih]
        by_cases hx : x = name
        · simp [hx]
        · have hne : (x == name) = false := by simpa using hx
          have hidx : (name :: captured).idxOf x = captured.idxOf x + 1 :=
            List.idxOf_cons_ne _ (Ne.symm hx)
          simp only [hne, List.mem_cons, hx, false_or, hidx]
          congr 4
          omega
  exact hfrom 0

namespace Expr

@[simp] lemma substitute_ref (m : Subst) (x : Text) :
    (ref x).substitute m = (m.lookup x).getD (ref x) := rfl

/-- Nothing is replaced by an empty substitution. -/
lemma substitute_nil (e : Expr) : e.substitute [] = e := by
  induction e using ind with
  | num value => rfl
  | ref name => rfl
  | slot env index => rfl
  | app func arg ih => rw [substitute, ih]
  | closure func captured ih =>
      rw [substitute, substituteAll_eq, List.map_congr_left ih, List.map_id']
  | letIn name bind body ihb ih => rw [substitute, Subst.without_nil, ihb, ih]
  | missing => rfl

end Expr

/-! ### Well-formedness -/

/-- Whether a name, after substitution, is a well-formed read at a place. -/
def Readable (m : Subst) (p : ExprPlace) (x : Text) : Prop :=
  ((Expr.ref x).substitute m).IsRead ∧ ((Expr.ref x).substitute m).WellFormed p

/-- Below a binder, the bound name can be read, and so can the others. -/
lemma Readable.bind {m : Subst} {p : ExprPlace} {x name : Text}
    (h : x ≠ name → Readable m p x) : Readable (m.without name) (p.bind name) x := by
  by_cases hx : x = name
  · have hlook : (m.without name).lookup x = none := by
      rw [Subst.lookup_without, if_pos hx]
    rw [Readable, Expr.substitute_ref, hlook, hx]
    exact ⟨trivial, List.mem_cons_self⟩
  · have hlook : (m.without name).lookup x = m.lookup x := by
      rw [Subst.lookup_without, if_neg hx]
    obtain ⟨hread, hwf⟩ := h hx
    rw [Readable, Expr.substitute_ref, hlook]
    exact ⟨hread, hwf.bind_of_isRead hread name⟩

/-- In the body of a function, the free names other than the parameter are
read from the slots of its environment. -/
lemma readable_slots {param env : Text} {body : Tree} {earlier : List Decl} {x : Text}
    (hx : x ∈ body.free) :
    Readable (slots env (Tree.lam param body).free)
      ⟨[param], [(env, (Tree.lam param body).free.length)], earlier⟩ x := by
  rw [Readable, Expr.substitute_ref, lookup_slots]
  by_cases hp : x = param
  · rw [if_neg (by simp [hp])]
    exact ⟨trivial, List.mem_singleton.mpr hp⟩
  · have hmem : x ∈ (Tree.lam param body).free := Tree.mem_free_lam.mpr ⟨hx, hp⟩
    rw [if_pos hmem]
    have hlt := List.idxOf_lt_length_of_mem hmem
    exact ⟨trivial, _, List.mem_singleton_self _, by omega, by simpa using hlt⟩

namespace Tree

/-- **What conversion leaves of a tree is well formed**, after a substitution,
wherever the free names of the tree can be read and its functions are
declared. -/
lemma wellFormed_convert (t : Tree) (n : Nat) {m : Subst} {p : ExprPlace}
    (hdecls : (t.convert n).decls ⊆ p.decls) (hfree : ∀ x ∈ t.free, Readable m p x) :
    ((t.convert n).expr.substitute m).WellFormed p := by
  induction t generalizing n m p with
  | num value => trivial
  | var name => exact (hfree name (by simp)).2
  | lam param body ih =>
      have hread : ∀ c ∈ Expr.substituteAll m ((lam param body).free.map .ref),
          c.IsRead ∧ c.WellFormed p := by
        intro c hc
        rw [Expr.substituteAll_eq, List.map_map] at hc
        obtain ⟨x, hx, rfl⟩ := List.mem_map.mp hc
        exact hfree x hx
      refine ⟨⟨_, hdecls (List.mem_append_right _ (List.mem_singleton_self _)), rfl, ?_⟩,
        fun c hc => (hread c hc).1, Expr.allWellFormed_iff.mpr fun c hc => (hread c hc).2⟩
      rw [Expr.substituteAll_eq, List.length_map, List.length_map]
  | app func arg ihf iha =>
      have hfunc := ihf n (fun d hd => hdecls (List.mem_append_left _ hd))
        fun x hx => hfree x (by simp [hx])
      refine ⟨hfunc, List.mem_cons_self, iha _ (fun d hd => hdecls (List.mem_append_right _ hd)) ?_⟩
      exact fun x hx => Readable.bind fun _ => hfree x (by simp [hx])
  | letIn name bind body ihb ih =>
      refine ⟨ihb n (fun d hd => hdecls (List.mem_append_left _ hd)) fun x hx => ?_,
        ih _ (fun d hd => hdecls (List.mem_append_right _ hd)) fun x hx => ?_⟩
      · exact hfree x (by simp [hx])
      · exact Readable.bind fun hne => hfree x (by simp [hx, hne])

/-- The expression of a conversion is well formed where the free names of the
tree are bound. -/
lemma wellFormed_expr_convert (t : Tree) (n : Nat) :
    (t.convert n).expr.WellFormed ⟨t.free, [], (t.convert n).decls⟩ := by
  have h := t.wellFormed_convert n (m := []) (p := ⟨t.free, [], (t.convert n).decls⟩)
    (List.Subset.refl _) fun x hx => ⟨trivial, hx⟩
  rwa [Expr.substitute_nil] at h

/-- **Every declaration is well formed over the earlier ones.** -/
lemma declsWellFormed_convert (t : Tree) (n : Nat) (earlier : List Decl) :
    DeclsWellFormed earlier (t.convert n).decls := by
  induction t generalizing n earlier with
  | num value => trivial
  | var name => trivial
  | lam param body ih =>
      refine declsWellFormed_append.mpr ⟨ih _ earlier, ?_, trivial⟩
      exact body.wellFormed_convert _ (List.subset_append_right _ _) fun x hx => readable_slots hx
  | app func arg ihf iha => exact declsWellFormed_append.mpr ⟨ihf _ _, iha _ _⟩
  | letIn name bind body ihb ih => exact declsWellFormed_append.mpr ⟨ihb _ _, ih _ _⟩

end Tree

/-! ### Functions and their declarations -/

namespace Tree

/-- The functions of a tree, parameter and body, in the order in which they are
converted. -/
def functions : Tree → List (Text × Tree)
  | num _ | var _ => []
  | lam param body => body.functions ++ [(param, body)]
  | app func arg => func.functions ++ arg.functions
  | letIn _ bind body => bind.functions ++ body.functions

/-- The declaration of a function, with names numbered from `next` on. -/
def functionDecl (next : Nat) (param : Text) (body : Tree) : Decl :=
  ⟨(lam param body).free.length, mintCode (next + 1), mintEnv next, param,
    (body.convert (next + 2)).expr.substitute (slots (mintEnv next) (lam param body).free)⟩

/-- **The declarations of a conversion are those of the functions**, in their
order. What holds of all names of the tree holds of the names of each function. -/
lemma forall₂_functions {P : Text → Prop} (t : Tree) (ht : ∀ x ∈ t.names, P x) (n : Nat) :
    List.Forall₂ (fun f d => (∀ x ∈ (lam f.1 f.2).names, P x) ∧ ∃ k, d = functionDecl k f.1 f.2)
      t.functions (t.convert n).decls := by
  induction t generalizing n with
  | num value => exact .nil
  | var name => exact .nil
  | lam param body ih =>
      have hbody := ih (fun x hx => ht x (List.mem_cons_of_mem _ hx)) (n + 2)
      exact List.rel_append hbody (.cons ⟨ht, n, rfl⟩ .nil)
  | app func arg ihf iha =>
      obtain ⟨hfunc, harg⟩ := List.forall_mem_append.mp ht
      exact List.rel_append (ihf hfunc n) (iha harg _)
  | letIn name bind body ihb ih =>
      obtain ⟨hbind, hbody⟩ := List.forall_mem_append.mp (List.forall_mem_cons.mp ht).2
      exact List.rel_append (ihb hbind n) (ih hbody _)

lemma wellFormed_functionDecl (k : Nat) (param : Text) (body : Tree) :
    (functionDecl k param body).body.WellFormed
      ((functionDecl k param body).place (body.convert (k + 2)).decls) :=
  body.wellFormed_convert _ (List.Subset.refl _) fun _ hx => readable_slots hx

end Tree

/-! ### One closure for each declaration -/

/-- A read builds no closure. -/
lemma Expr.IsRead.closureSites_eq_nil {e : Expr} (h : e.IsRead) : e.closureSites = [] := by
  cases e with
  | ref name => rfl
  | slot env index => rfl
  | _ => exact absurd h id

/-- A substitution of reads replaces a name by a read. -/
lemma Expr.isRead_substitute_ref {m : Subst} (hm : ∀ p ∈ m, p.2.IsRead) (x : Text) :
    ((ref x).substitute m).IsRead := by
  rw [substitute_ref]
  cases hlook : m.lookup x with
  | none => trivial
  | some e =>
      exact hm (x, e) (mem_of_lookup hlook)

/-- A substitution of reads changes what closures capture, but not over which
functions they are built. -/
lemma Expr.map_fst_closureSites_substitute {m : Subst} (hm : ∀ p ∈ m, p.2.IsRead) (e : Expr) :
    (e.substitute m).closureSites.map Prod.fst = e.closureSites.map Prod.fst := by
  induction e using Expr.ind generalizing m with
  | num value => rfl
  | ref name =>
      rw [(isRead_substitute_ref hm name).closureSites_eq_nil]
      rfl
  | slot env index => rfl
  | app func arg ih => exact ih hm
  | closure func captured ih =>
      simp only [substitute, closureSites, closureSitesAll_eq, substituteAll_eq, List.map_cons,
        List.map_flatMap, List.flatMap_map]
      rw [List.flatMap_congr fun c hc => ih c hc hm]
  | letIn name bind body ihb ih =>
      have hm' : ∀ p ∈ m.without name, p.2.IsRead := fun p hp => hm p (List.mem_filter.mp hp).1
      simp only [substitute, closureSites, List.map_append, ihb hm, ih hm']
  | missing => rfl

lemma isRead_of_mem_slots {env : Text} {captured : Names} {p : Text × Expr}
    (hp : p ∈ slots env captured) : p.2.IsRead := by
  obtain ⟨q, -, rfl⟩ := List.mem_map.mp hp
  trivial

lemma fst_mem_of_mem_slots {env : Text} {captured : Names} {p : Text × Expr}
    (hp : p ∈ slots env captured) : p.1 ∈ captured := by
  obtain ⟨q, hq, rfl⟩ := List.mem_map.mp hp
  exact List.fst_mem_of_mem_zipIdx hq

/-- The functions over which the declarations and the expression of a
conversion build closures. -/
def Converted.builtNames (c : Converted) : List Text :=
  c.decls.flatMap (fun d => d.body.closureSites.map Prod.fst) ++
    c.expr.closureSites.map Prod.fst

/-- Two conversions side by side build what each of them builds. -/
lemma Converted.builtNames_perm_of_pair {c c' c'' : Converted}
    (h : c.builtNames.Perm (c.decls.map Decl.name))
    (h' : c'.builtNames.Perm (c'.decls.map Decl.name))
    (hdecls : c''.decls = c.decls ++ c'.decls)
    (hsites : c''.expr.closureSites = c.expr.closureSites ++ c'.expr.closureSites) :
    c''.builtNames.Perm (c''.decls.map Decl.name) := by
  rw [builtNames, hdecls, hsites, List.flatMap_append, List.map_append, List.map_append]
  refine List.Perm.trans ?_ (h.append h')
  rw [builtNames, builtNames, List.append_assoc, List.append_assoc]
  refine List.Perm.append_left _ ?_
  rw [← List.append_assoc, ← List.append_assoc]
  exact List.perm_append_comm.append_right _

namespace Tree

/-- **One closure is built for each declaration.** -/
lemma builtNames_convert_perm (t : Tree) (n : Nat) :
    (t.convert n).builtNames.Perm ((t.convert n).decls.map Decl.name) := by
  induction t generalizing n with
  | num value => exact List.Perm.refl _
  | var name => exact List.Perm.refl _
  | lam param body ih =>
      have hnil : Expr.closureSitesAll ((lam param body).free.map .ref) = [] := by
        rw [Expr.closureSitesAll_eq, List.flatMap_map]
        exact List.flatMap_eq_nil_iff.mpr fun x _ => rfl
      simp only [Converted.builtNames, convert, List.flatMap_append, List.map_append,
        List.flatMap_cons, List.flatMap_nil, List.append_nil, Expr.closureSites, hnil,
        Expr.map_fst_closureSites_substitute fun p hp => isRead_of_mem_slots hp]
      exact (ih (n + 2)).append_right _
  | app func arg ihf iha =>
      exact Converted.builtNames_perm_of_pair (ihf n) (iha _) rfl rfl
  | letIn name bind body ihb ih =>
      exact Converted.builtNames_perm_of_pair (ihb n) (ih _) rfl rfl

end Tree

/-! ### Bound names -/

namespace Expr

lemma IsRead.binders_eq_nil {e : Expr} (h : e.IsRead) : e.binders = [] := by
  cases e with
  | ref name => rfl
  | slot env index => rfl
  | _ => exact absurd h id

/-- A substitution of reads leaves the bound names as they are. -/
lemma binders_substitute {m : Subst} (hm : ∀ p ∈ m, p.2.IsRead) (e : Expr) :
    (e.substitute m).binders = e.binders := by
  induction e using Expr.ind generalizing m with
  | num value => rfl
  | ref name =>
      rw [(isRead_substitute_ref hm name).binders_eq_nil]
      rfl
  | slot env index => rfl
  | app func arg ih => exact ih hm
  | closure func captured ih =>
      simp only [substitute, binders, bindersAll_eq, substituteAll_eq, List.flatMap_map]
      exact List.flatMap_congr fun c hc => ih c hc hm
  | letIn name bind body ihb ih =>
      have hm' : ∀ p ∈ m.without name, p.2.IsRead := fun p hp => hm p (List.mem_filter.mp hp).1
      simp only [substitute, binders, ihb hm, ih hm']
  | missing => rfl

end Expr

namespace Tree

/-- The expression of a conversion binds names of the tree and temporaries. -/
lemma mem_names_of_mem_binders_convert {t : Tree} {n : Nat} {x : Text}
    (hx : x ∈ (t.convert n).expr.binders) : x ∈ t.names ∨ ∃ k, x = mintTemp k := by
  induction t generalizing n with
  | num value => exact absurd hx List.not_mem_nil
  | var name => exact absurd hx List.not_mem_nil
  | lam param body ih =>
      rw [convert, Expr.binders, Expr.bindersAll_eq, List.flatMap_map] at hx
      obtain ⟨y, -, hy⟩ := List.mem_flatMap.mp hx
      exact absurd hy List.not_mem_nil
  | app func arg ihf iha =>
      simp only [convert, Expr.binders, List.mem_cons, List.mem_append] at hx
      rcases hx with rfl | hx | hx
      · exact .inr ⟨_, rfl⟩
      · exact (ihf hx).imp_left fun h => List.mem_append_left _ h
      · exact (iha hx).imp_left fun h => List.mem_append_right _ h
  | letIn name bind body ihb ih =>
      simp only [convert, Expr.binders, List.mem_cons, List.mem_append] at hx
      rcases hx with rfl | hx | hx
      · exact .inl List.mem_cons_self
      · exact (ihb hx).imp_left fun h => List.mem_cons_of_mem _ (List.mem_append_left _ h)
      · exact (ih hx).imp_left fun h => List.mem_cons_of_mem _ (List.mem_append_right _ h)

end Tree

/-! ### Free names -/

namespace Tree

/-- **Conversion keeps free names**, in their order, if no name of the tree looks
minted. -/
lemma free_expr_convert (t : Tree) (ht : ∀ x ∈ t.names, ¬ looksMinted x) (n : Nat) :
    (t.convert n).expr.free = t.free := by
  induction t generalizing n with
  | num value => rfl
  | var name => rw [convert, Expr.free_ref, free_var]
  | lam param body ih => exact Expr.free_closure_map_ref _ (lam param body).nodup_free
  | app func arg ihf iha =>
      have hfunc := ihf (fun x hx => ht x (List.mem_append_left _ hx)) n
      have harg := iha (fun x hx => ht x (List.mem_append_right _ hx))
        ((func.convert n).next + 1)
      -- the temporary is no name of the argument
      have htemp : arg.free.filter (· ≠ mintTemp (func.convert n).next) = arg.free := by
        refine List.filter_eq_self.mpr fun x hx => ?_
        have hx' := ht x (List.mem_append_right _ (arg.free_subset_names hx))
        simpa using fun heq : x = mintTemp _ => hx' (heq ▸ looksMinted_mintTemp _)
      rw [convert, Expr.free_letIn, Expr.free_app, hfunc, harg, free_app, htemp,
        List.filter_cons_of_neg (by simp), htemp]
  | letIn name bind body ihb ih =>
      have hbind := ihb (fun x hx => ht x (List.mem_cons_of_mem _ (List.mem_append_left _ hx))) n
      have hbody := ih (fun x hx => ht x (List.mem_cons_of_mem _ (List.mem_append_right _ hx)))
        (bind.convert n).next
      rw [convert, Expr.free_letIn, hbind, hbody, free_letIn]

end Tree

/-! ### The program of a tree -/

/-- Whether a closure is built over one of the declarations, and captures one
name or slot for each of its slots. -/
def BuildsOneOf (decls : List Decl) (site : Text × List Expr) : Prop :=
  (∃ d ∈ decls, d.name = site.1 ∧ d.slotCount = site.2.length) ∧ ∀ c ∈ site.2, c.IsRead

namespace Tree

lemma entry_toProgram (t : Tree) : t.toProgram.entry = .ok (t.hygienic.convert 0).expr := by
  simp [Program.entry, toProgram]

lemma decls_toProgram (t : Tree) : t.toProgram.decls = (t.hygienic.convert 0).decls := by
  have hdecls : ∀ ds : List Decl, (ds.map Item.decl).filterMap Item.decl? = ds := by
    intro ds
    rw [List.filterMap_map]
    exact List.filterMap_some
  simp only [Program.decls, toProgram, List.filterMap_append, hdecls]
  simp [Item.decl?]

lemma declsWellFormed_toProgram (t : Tree) : DeclsWellFormed [] t.toProgram.decls := by
  rw [decls_toProgram]
  exact t.hygienic.declsWellFormed_convert 0 []

lemma nodup_names_toProgram (t : Tree) : (t.toProgram.decls.map Decl.name).Nodup := by
  rw [decls_toProgram]
  exact t.hygienic.nodup_names_convert 0

/-- Declarations have minted names. -/
lemma disjoint_names_toProgram (t : Tree) {names : List Text}
    (hnames : ∀ x ∈ names, looksMinted x = false) :
    (t.toProgram.decls.map Decl.name).Disjoint names := by
  intro x hx hx'
  obtain ⟨d, hd, rfl⟩ := List.mem_map.mp hx
  rw [decls_toProgram] at hd
  obtain ⟨k, -, -, hk⟩ := exists_name_of_mem_decls hd
  have hfalse := hnames _ hx'
  rw [hk, looksMinted_mintCode] at hfalse
  exact absurd hfalse (by simp)

/-- The entry has the free names of the tree, after hygiene. -/
lemma free_entry (t : Tree) {e : Expr} (he : t.toProgram.entry = .ok e) :
    e.free = t.hygienic.free := by
  obtain rfl := Except.ok.inj (t.entry_toProgram.symm.trans he)
  exact t.hygienic.free_expr_convert (fun x hx => not_looksMinted_of_mem_hygienic hx) 0

/-- The entry uses the free names of the tree and the declarations. -/
lemma wellFormed_entry (t : Tree) {e : Expr} (he : t.toProgram.entry = .ok e) :
    e.WellFormed ⟨t.hygienic.free, [], t.toProgram.decls⟩ := by
  obtain rfl := Except.ok.inj (t.entry_toProgram.symm.trans he)
  rw [decls_toProgram]
  exact t.hygienic.wellFormed_expr_convert 0

/-- The entry of a closed tree uses nothing but the declarations. -/
lemma wellFormed_entry_toProgram {t : Tree} (hclosed : t.free = []) {e : Expr}
    (he : t.toProgram.entry = .ok e) : e.WellFormed ⟨[], [], t.toProgram.decls⟩ := by
  have hfree : t.hygienic.free = [] := by rw [free_hygienic, hclosed, List.map_nil]
  exact hfree ▸ t.wellFormed_entry he

/-- **Soundness of conversion.** The program of a tree is one declaration for
each function of the tree, all under different names, and one entry. The free
names of a body are its two parameters; it reads only its own environment, and
within its size, while the entry reads none. Every closure is built over an
earlier declaration and captures one name or slot for each of its slots, and
each declaration is the code of exactly one closure of the program. -/
theorem toProgram_sound (t : Tree) : ∃ decls e,
    t.toProgram = decls.map .decl ++ [.main e] ∧
    decls.length = t.lamCount ∧
    (decls.map Decl.name).Nodup ∧
    (∀ d ∈ decls, ∀ x ∈ d.body.free, x = d.arg ∨ x = d.env) ∧
    (∀ d ∈ decls, ∀ r ∈ d.body.slotReads, r.1 = d.env ∧ 0 ≤ r.2 ∧ r.2 < d.slotCount) ∧
    e.slotReads = [] ∧
    (∀ earlier d later, decls = earlier ++ d :: later →
      ∀ site ∈ d.body.closureSites, BuildsOneOf earlier site) ∧
    (∀ site ∈ e.closureSites, BuildsOneOf decls site) ∧
    (∀ d ∈ decls, ((decls.flatMap (·.body.closureSites) ++ e.closureSites).map Prod.fst).count
      d.name = 1) := by
  set c := t.hygienic.convert 0 with hc
  have hdecls : DeclsWellFormed [] c.decls := t.hygienic.declsWellFormed_convert 0 []
  have hentry := t.hygienic.wellFormed_expr_convert 0
  refine ⟨c.decls, c.expr, rfl, ?_, t.hygienic.nodup_names_convert 0, ?_, ?_, ?_, ?_, ?_, ?_⟩
  · rw [hc, length_decls_convert, hygienic_eq, lamCount_rename]
  · intro d hd x hx
    obtain ⟨earlier, -, hwf⟩ := hdecls.exists_of_mem hd
    exact Decl.eq_of_mem_free hwf hx
  · intro d hd r hr
    obtain ⟨earlier, -, hwf⟩ := hdecls.exists_of_mem hd
    exact Decl.of_mem_slotReads hwf hr
  · refine List.eq_nil_iff_forall_not_mem.mpr fun r hr => ?_
    obtain ⟨size, hmem, -⟩ := hentry.of_mem_slotReads hr
    exact absurd hmem List.not_mem_nil
  · intro earlier d later heq site hsite
    rw [heq] at hdecls
    exact hdecls.body.of_mem_closureSites hsite
  · intro site hsite
    exact hentry.of_mem_closureSites hsite
  · intro d hd
    have hperm := t.hygienic.builtNames_convert_perm 0
    have hnodup := t.hygienic.nodup_names_convert 0
    rw [List.map_append, List.map_flatMap]
    rw [Converted.builtNames, ← hc] at hperm
    rw [hperm.count_eq]
    exact List.count_eq_one_of_mem hnodup (List.mem_map_of_mem hd)

end Tree

end FlatClosure
