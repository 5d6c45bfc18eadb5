/-
The names in generated C source.

* `Tree.isWord_of_mem_binders_convert`, `Tree.isWord_of_mem_decls_convert`:
  conversion binds only words if the names of the tree are words.
* `Expr.mem_identifiers_toC`: a translated expression uses only declared
  identifiers and functions that come before.
* `Expr.isCName_of_mem_toC`, `IsFunctionOf.isCName`: if the bound names are
  words, translated expressions and declarations use only names of C.
-/
import FlatClosure.Proofs.CReader
import FlatClosure.Proofs.CTranslation
import FlatClosure.Proofs.Conversion

namespace FlatClosure

/-! ### Bound names -/

namespace Tree

/-- The expression of a conversion binds words. -/
lemma isWord_of_mem_binders_convert {t : Tree} (ht : ∀ x ∈ t.names, x.isWord) (n : Nat)
    {x : Text} (hx : x ∈ (t.convert n).expr.binders) : x.isWord := by
  rcases mem_names_of_mem_binders_convert hx with hname | ⟨k, rfl⟩
  · exact ht x hname
  · exact isWord_mintTemp k

/-- The declarations of a conversion bind words. -/
lemma isWord_of_mem_decls_convert {t : Tree} (ht : ∀ x ∈ t.names, x.isWord) (n : Nat)
    {d : Decl} (hd : d ∈ (t.convert n).decls) :
    d.env.isWord ∧ d.arg.isWord ∧ ∀ x ∈ d.body.binders, x.isWord := by
  obtain ⟨⟨param, body⟩, -, hwords, k, rfl⟩ := exists_of_mem_right (t.forall₂_functions ht n) hd
  obtain ⟨hparam, hbody⟩ := List.forall_mem_cons.mp hwords
  refine ⟨isWord_mintEnv k, hparam, fun x hx => ?_⟩
  rw [functionDecl, Expr.binders_substitute fun p hp => isRead_of_mem_slots hp] at hx
  exact isWord_of_mem_binders_convert hbody _ hx

end Tree

/-! ### Identifiers of an expression -/

/-- The identifier of a word is a word. -/
lemma Locals.isWord_declare (l : Locals) {name : Text} (h : name.isWord) :
    (l.declare name).1.isWord := by
  obtain ⟨k, heq, -⟩ := l.declare_eq name
  rw [heq]
  cases k with
  | zero => exact h
  | succ k =>
      have hunderscore : ∀ b ∈ Text.ofString "_", Text.isWordByte b :=
        List.all_eq_true.mp (by decide)
      exact Text.isWord_append_ofNat (Text.isWord_append h hunderscore) _

/-- A declared identifier is a name of C if it is a word. -/
lemma Locals.Apart.isCName {l : Locals} (hl : l.Apart) (hwords : ∀ x ∈ l.declared, x.isWord)
    {x : Text} (hx : x ∈ l.declared) : isCName x := by
  have hkeywords : cKeywords ⊆ reservedWords := by decide
  exact isCName_iff.mpr ⟨hwords x hx, fun hmem => hl.notMem_reservedWords x hx (hkeywords hmem)⟩

namespace Expr

variable {envs scope : Bindings} {l l' : Locals} {body : CBody}

/-- Translation declares words if the bound names are words. -/
lemma isWord_declared_toC (e : Expr) (he : ∀ x ∈ e.binders, x.isWord)
    (hl : ∀ x ∈ l.declared, x.isWord) (h : e.toC envs scope l = .ok (body, l')) :
    ∀ x ∈ l'.declared, x.isWord := by
  induction e using ind generalizing scope l body l' with
  | num value => cases h; exact hl
  | ref name => cases h; exact hl
  | slot env index =>
      obtain ⟨id, -, -, rfl⟩ := exists_of_toC_slot h
      exact hl
  | app func arg ih =>
      obtain ⟨argument, harg, -⟩ := exists_of_toC_app h
      exact ih he hl harg
  | closure func captured ih =>
      obtain ⟨stmts, values, hall, -⟩ := exists_of_toC_closure h
      rw [binders, bindersAll_eq] at he
      refine toCAll_invariant (P := fun l => ∀ x ∈ l.declared, x.isWord) hall
        (fun c hc l₁ body₁ l₂ h₁ hl₁ => ih c hc (fun x hx => ?_) hl₁ h₁) hl
      exact he x (List.mem_flatMap.mpr ⟨c, hc, hx⟩)
  | letIn name bind e ihb ih =>
      obtain ⟨bound, l₁, rest, hbind, hrest, -⟩ := exists_of_toC_letIn h
      simp only [binders, List.mem_cons, List.mem_append] at he
      have hdeclare : ∀ x ∈ (l.declare name).2.declared, x.isWord := by
        rw [Locals.declared_declare]
        exact List.forall_mem_cons.mpr ⟨l.isWord_declare (he name (Or.inl rfl)), hl⟩
      exact ih (fun x hx => he x (Or.inr (Or.inr hx)))
        (ihb (fun x hx => he x (Or.inr (Or.inl hx))) hdeclare hbind) hrest
  | missing => exact absurd h (by simp [toC])

/-- Whether what a place offers has declared identifiers. -/
structure Offered (p : ExprPlace) (envs scope : Bindings) (l : Locals) : Prop where
  local_mem : ∀ x ∈ p.locals, scope.identifier x ∈ l.declared
  env_mem : ∀ x id, envs.lookup x = some id → id ∈ l.declared

lemma Offered.mono {p : ExprPlace} (h : Offered p envs scope l) (hl : l.Grows l') :
    Offered p envs scope l' :=
  ⟨fun x hx => hl.declared (h.local_mem x hx), fun x id hid => hl.declared (h.env_mem x id hid)⟩

lemma Offered.bind {p : ExprPlace} (h : Offered p envs scope l) {name id : Text}
    (hid : id ∈ l.declared) : Offered (p.bind name) envs ((name, id) :: scope) l := by
  refine ⟨fun x hx => ?_, h.env_mem⟩
  by_cases heq : x = name
  · rw [heq, Bindings.identifier, List.lookup_cons_self]
    exact hid
  · have hmem := h.local_mem x ((List.mem_cons.mp hx).resolve_left heq)
    rwa [Bindings.identifier, lookup_cons_of_ne heq]

/-- Captured expressions use declared identifiers and other names that each of
them uses. -/
lemma mem_identifiers_toCAll {p : ExprPlace} {others : List Text} {es : List Expr}
    (hes : ∀ e ∈ es, ∀ l body l', Offered p envs scope l → e.toC envs scope l = .ok (body, l') →
      ∀ x ∈ body.identifiers, x ∈ l'.declared ∨ x ∈ others)
    (hp : Offered p envs scope l) {stmts : List CStmt} {values : List CExpr}
    (h : toCAll envs scope l es = .ok (stmts, values, l')) :
    ∀ x ∈ stmts.flatMap CStmt.identifiers ++ CExpr.identifiersAll values,
      x ∈ l'.declared ∨ x ∈ others := by
  induction es generalizing l stmts values with
  | nil => cases h; exact fun x hx => absurd hx List.not_mem_nil
  | cons e es ih =>
      obtain ⟨first, l₁, stmts', values', hfirst, hrest, rfl, rfl⟩ := exists_of_toCAll_cons h
      have hfirst' := hes e List.mem_cons_self l first l₁ hp hfirst
      have hrest' := ih (fun e' he' => hes e' (List.mem_cons_of_mem e he'))
        (hp.mono (grows_toC e hfirst)) hrest
      intro x hx
      simp only [CBody.identifiers, List.flatMap_append, CExpr.identifiersAll,
        List.mem_append] at hx hfirst' hrest'
      have hgrow := grows_toCAll hrest
      have hmono : x ∈ l₁.declared ∨ x ∈ others → x ∈ l'.declared ∨ x ∈ others :=
        Or.imp_left fun hx => hgrow.declared hx
      rcases hx with (hx | hx) | hx | hx
      · exact hmono (hfirst' x (Or.inl hx))
      · exact hrest' x (Or.inl hx)
      · exact hmono (hfirst' x (Or.inr hx))
      · exact hrest' x (Or.inr hx)

/-- A translated expression uses declared identifiers and earlier functions. -/
lemma mem_identifiers_toC (e : Expr) {p : ExprPlace} (hwf : e.WellFormed p)
    (hp : Offered p envs scope l) (h : e.toC envs scope l = .ok (body, l')) :
    ∀ x ∈ body.identifiers, x ∈ l'.declared ∨ x ∈ p.decls.map Decl.name := by
  induction e using ind generalizing p scope l body l' with
  | num value => cases h; exact fun x hx => absurd hx List.not_mem_nil
  | ref name =>
      cases h
      intro x hx
      obtain rfl := List.mem_singleton.mp hx
      exact Or.inl (hp.local_mem name hwf)
  | slot env index =>
      obtain ⟨id, hid, rfl, rfl⟩ := exists_of_toC_slot h
      intro x hx
      obtain rfl := List.mem_singleton.mp hx
      exact Or.inl (hp.env_mem env x hid)
  | app func arg ih =>
      obtain ⟨argument, harg, rfl⟩ := exists_of_toC_app h
      intro x hx
      simp only [CBody.identifiers, CExpr.identifiers, List.mem_append, List.mem_cons] at hx
      rcases hx with hx | rfl | hx
      · exact ih hwf.2 hp harg x (List.mem_append_left _ hx)
      · exact Or.inl ((grows_toC arg harg).declared (hp.local_mem func hwf.1))
      · exact ih hwf.2 hp harg x (List.mem_append_right _ hx)
  | closure func captured ih =>
      obtain ⟨stmts, values, hall, rfl⟩ := exists_of_toC_closure h
      obtain ⟨⟨d, hd, rfl, -⟩, -, hwfAll⟩ := hwf
      have hcaptured := mem_identifiers_toCAll
        (fun c hc _ _ _ => ih c hc (allWellFormed_iff.mp hwfAll c hc)) hp hall
      intro x hx
      simp only [CBody.identifiers, CExpr.identifiers, List.mem_append, List.mem_cons] at hx
      rcases hx with hx | rfl | hx
      · exact hcaptured x (List.mem_append_left _ hx)
      · exact Or.inr (List.mem_map_of_mem hd)
      · exact hcaptured x (List.mem_append_right _ hx)
  | letIn name bind e ihb ih =>
      obtain ⟨bound, l₁, rest, hbind, hrest, rfl⟩ := exists_of_toC_letIn h
      have hgrow := l.grows_declare name
      have hid : (l.declare name).1 ∈ l₁.declared := by
        refine (grows_toC bind hbind).declared ?_
        rw [Locals.declared_declare]
        exact List.mem_cons_self
      have hgrow₁ := grows_toC e hrest
      have hbound := ihb hwf.1 (hp.mono hgrow) hbind
      have hbody := ih hwf.2 ((hp.mono (hgrow.trans (grows_toC bind hbind))).bind hid) hrest
      intro x hx
      have hmono : x ∈ l₁.declared ∨ x ∈ p.decls.map Decl.name →
          x ∈ l'.declared ∨ x ∈ p.decls.map Decl.name := Or.imp_left fun hx => hgrow₁.declared hx
      simp only [CBody.identifiers, CStmt.identifiers, List.flatMap_append, List.flatMap_cons,
        List.mem_append, List.mem_cons, List.not_mem_nil, or_false] at hx hbound hbody
      rcases hx with ((rfl | hx) | (rfl | hx) | hx) | hx
      · exact Or.inl (hgrow₁.declared hid)
      · exact hmono (hbound x (Or.inl hx))
      · exact Or.inl (hgrow₁.declared hid)
      · exact hmono (hbound x (Or.inr hx))
      · exact hbody x (Or.inl hx)
      · exact hbody x (Or.inr hx)
  | missing => exact absurd hwf id

/-- Translated expressions use only names of C, if they bind words and call
functions with such names. -/
lemma isCName_of_mem_toC (e : Expr) {p : ExprPlace} (hwf : e.WellFormed p)
    (hp : Offered p envs scope l) (he : ∀ x ∈ e.binders, x.isWord) (hl : l.Apart)
    (hwords : ∀ x ∈ l.declared, x.isWord) (hdecls : ∀ d ∈ p.decls, isCName d.name)
    (h : e.toC envs scope l = .ok (body, l')) {x : Text} (hx : x ∈ body.identifiers) :
    isCName x := by
  rcases e.mem_identifiers_toC hwf hp h x hx with hx | hx
  · exact ((e.grows_toC h).apart hl).isCName (e.isWord_declared_toC he hwords h) hx
  · obtain ⟨d, hd, rfl⟩ := List.mem_map.mp hx
    exact hdecls d hd

end Expr

/-! ### Identifiers of a function -/

lemma isCName_mintCode (n : Nat) : isCName (mintCode n) := by
  have hkeyword : ∀ x ∈ cKeywords, looksMinted x = false := by decide
  refine isCName_iff.mpr ⟨isWord_mintCode n, fun hmem => ?_⟩
  exact absurd (looksMinted_mintCode n) (by simp [hkeyword _ hmem])

/-- The function of a declaration uses only names of C, if the declaration binds
words and the functions that it uses have such names. -/
lemma IsFunctionOf.isCName {globals : List Text} {d : Decl} {item : CItem}
    (h : IsFunctionOf globals d item) {earlier : List Decl}
    (hwf : d.body.WellFormed (d.place earlier))
    (hwords : d.env.isWord ∧ d.arg.isWord ∧ ∀ x ∈ d.body.binders, x.isWord)
    (hname : FlatClosure.isCName d.name) (hearlier : ∀ d' ∈ earlier, FlatClosure.isCName d'.name)
    {x : Text} (hx : x ∈ item.identifiers) : FlatClosure.isCName x := by
  obtain ⟨body, l, htoC, rfl⟩ := h
  obtain ⟨henv, harg, hbody⟩ := hwords
  have hapart := (d.grows_cLocals globals).apart (Locals.apart_empty globals)
  have hdeclared : ∀ x ∈ (d.cLocals globals).declared, x.isWord := by
    rw [Decl.declared_cLocals]
    exact List.forall_mem_cons.mpr ⟨Locals.isWord_declare _ harg,
      List.forall_mem_singleton.mpr (Locals.isWord_declare _ henv)⟩
  have hmem : d.cArg globals ∈ (d.cLocals globals).declared ∧
      d.cEnv globals ∈ (d.cLocals globals).declared := by simp [Decl.declared_cLocals]
  have hoffered : Expr.Offered (d.place earlier) [(d.env, d.cEnv globals)]
      [(d.arg, d.cArg globals)] (d.cLocals globals) := by
    refine ⟨fun y hy => ?_, fun y id hid => ?_⟩
    · rw [List.mem_singleton.mp hy, Bindings.identifier, List.lookup_cons_self]
      exact hmem.1
    · obtain ⟨-, rfl⟩ := eq_of_lookup_singleton hid
      exact hmem.2
  simp only [CItem.identifiers, List.mem_cons] at hx
  rcases hx with rfl | rfl | rfl | hx
  · exact hname
  · exact hapart.isCName hdeclared hmem.2
  · exact hapart.isCName hdeclared hmem.1
  · exact d.body.isCName_of_mem_toC hwf hoffered hbody hapart hdeclared hearlier htoC hx

end FlatClosure
