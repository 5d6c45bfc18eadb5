/-
Captured names.

A function captures its free names, and its declaration reads them from numbered
slots. The free names are collected on the tree, while the reads stand in what
conversion and substitution make of the body.

* `Tree.reads`: the names that a tree reads, with repeats;
  `Tree.eraseDups_reads`: without repeats they are its free names.
* `Tree.slotReads_substitute_convert`: after a substitution, what is left of a
  tree reads the slots of the names that the tree reads.
* `Tree.eraseDups_slotIndices_functionDecl`: a declaration reads its slots in
  their order.
* `Tree.convert_keeps_free_names`: what conversion leaves of a tree and of its
  functions has the free names that it should have.
* `Tree.toProgram_captures_in_order`: in a program, each slot of a declaration is
  read, and the slots are numbered in the order of their first reads.
-/
import FlatClosure.Proofs.Conversion

namespace FlatClosure

namespace Tree

/-! ### Names that are read -/

/-- The names that a tree reads outside its functions, from left to right. A
function reads the names that it captures. -/
def reads : Tree → List Text
  | num _ => []
  | var name => [name]
  | lam param body => (lam param body).free
  | app func arg => func.reads ++ arg.reads
  | letIn name bind body => bind.reads ++ body.reads.filter (· ≠ name)

/-- Without repeats, the names that are read are the free names. -/
lemma eraseDups_reads (t : Tree) : t.reads.eraseDups = t.free := by
  induction t with
  | num value => rfl
  | var name => rw [reads, free_var, eraseDups_of_nodup (List.nodup_singleton name)]
  | lam param body ih => exact eraseDups_of_nodup (lam param body).nodup_free
  | app func arg ihf iha => rw [reads, eraseDups_append, ihf, iha, free_app]
  | letIn name bind body ihb ih =>
      rw [reads, eraseDups_append, eraseDups_filter, ihb, ih, free_letIn]

lemma mem_reads {t : Tree} {x : Text} : x ∈ t.reads ↔ x ∈ t.free := by
  rw [← eraseDups_reads, List.mem_eraseDups]

end Tree

/-! ### Slots that are read -/

/-- Below a binder, the slot of the bound name is not read. -/
lemma Expr.slotReads_ref_without (m : Subst) (name x : Text) :
    ((ref x).substitute (m.without name)).slotReads =
      if x = name then [] else ((ref x).substitute m).slotReads := by
  rw [substitute_ref, substitute_ref, Subst.lookup_without]
  split_ifs <;> rfl

lemma Expr.slotReads_ref_slots (env : Text) (captured : Names) (x : Text) :
    ((ref x).substitute (slots env captured)).slotReads =
      if x ∈ captured then [(env, (captured.idxOf x : Int))] else [] := by
  rw [substitute_ref, lookup_slots]
  split_ifs <;> rfl

namespace Tree

/-- **The slots that are read after a substitution** are those of the names that
the tree reads, in their order. -/
lemma slotReads_substitute_convert (t : Tree) (ht : ∀ x ∈ t.names, ¬ looksMinted x) (n : Nat)
    (m : Subst) : ((t.convert n).expr.substitute m).slotReads =
      t.reads.flatMap fun x => ((Expr.ref x).substitute m).slotReads := by
  induction t generalizing n m with
  | num value => rfl
  | var name => rw [reads, List.flatMap_singleton]; rfl
  | lam param body ih =>
      rw [convert, Expr.substitute, Expr.slotReads, Expr.slotReadsAll_eq, Expr.substituteAll_eq,
        List.map_map, List.flatMap_map]
      rfl
  | app func arg ihf iha =>
      obtain ⟨hfunc, harg⟩ := List.forall_mem_append.mp ht
      rw [reads, List.flatMap_append, ← ihf hfunc n m]
      refine congrArg (_ ++ ·) ((iha harg _ _).trans (List.flatMap_congr fun x hx => ?_))
      -- the temporary is no name of the argument
      have htemp : x ≠ mintTemp (func.convert n).next := fun heq =>
        harg x (arg.free_subset_names (mem_reads.mp hx)) (heq ▸ looksMinted_mintTemp _)
      rw [Expr.slotReads_ref_without, if_neg htemp]
  | letIn name bind body ihb ih =>
      obtain ⟨hbind, hbody⟩ := List.forall_mem_append.mp (List.forall_mem_cons.mp ht).2
      rw [reads, List.flatMap_append, ← ihb hbind n m]
      refine congrArg (_ ++ ·) ((ih hbody _ _).trans ?_)
      rw [flatMap_filter]
      refine List.flatMap_congr fun x _ => ?_
      rw [Expr.slotReads_ref_without]
      by_cases hx : x = name <;> simp [hx]

/-- The declaration of a function reads the slots of the names that its body
reads, the parameter apart. -/
lemma slotReads_functionDecl (k : Nat) (param : Text) {body : Tree}
    (hbody : ∀ x ∈ body.names, ¬ looksMinted x) :
    (functionDecl k param body).body.slotReads =
      (body.reads.filter (· ∈ (lam param body).free)).map fun x =>
        (mintEnv k, ((lam param body).free.idxOf x : Int)) := by
  rw [functionDecl, body.slotReads_substitute_convert hbody, List.map_eq_flatMap, flatMap_filter]
  refine List.flatMap_congr fun x _ => ?_
  rw [Expr.slotReads_ref_slots]
  by_cases hx : x ∈ (lam param body).free <;> simp [hx]

end Tree

/-- The indices of the slots that the body of a declaration reads, from left to
right. -/
def Decl.slotIndices (d : Decl) : List Int := d.body.slotReads.map Prod.snd

namespace Tree

/-- **A function reads its slots in their order**, as far as first reads go. -/
lemma eraseDups_slotIndices_functionDecl (k : Nat) (param : Text) {body : Tree}
    (hbody : ∀ x ∈ body.names, ¬ looksMinted x) :
    (functionDecl k param body).slotIndices.eraseDups =
      (List.range (lam param body).free.length).map Int.ofNat := by
  set captured := (lam param body).free with hcaptured
  -- the captured names are those that the body reads, the parameter apart
  have hreads : (body.reads.filter (· ∈ captured)).eraseDups = captured := by
    rw [eraseDups_filter, eraseDups_reads, hcaptured, free_lam]
    refine List.filter_congr fun x hx => ?_
    simp [hx]
  have hinj : Set.InjOn (fun x => (captured.idxOf x : Int))
      {x | x ∈ body.reads.filter (· ∈ captured)} := by
    intro x hx y hy heq
    have hx' : x ∈ captured := by simpa using (List.mem_filter.mp hx).2
    exact (List.idxOf_inj hx').mp (Int.ofNat.inj heq)
  rw [Decl.slotIndices, slotReads_functionDecl k param hbody, List.map_map]
  calc ((body.reads.filter (· ∈ captured)).map fun x => (captured.idxOf x : Int)).eraseDups
      = captured.map fun x => (captured.idxOf x : Int) := by rw [eraseDups_map hinj, hreads]
    _ = (captured.map (captured.idxOf ·)).map Int.ofNat := by rw [List.map_map]; rfl
    _ = (List.range captured.length).map Int.ofNat := by
        rw [map_idxOf_of_nodup (lam param body).nodup_free]

end Tree

/-! ### Lists that count from zero -/

section

variable {l before after : List Int} {n : Nat} {i : Int}

/-- If a list without its repeats counts from zero, its members are the numbers
below a bound. -/
lemma mem_iff_of_eraseDups_eq (h : l.eraseDups = (List.range n).map Int.ofNat) :
    i ∈ l ↔ 0 ≤ i ∧ i < n := by
  rw [← List.mem_eraseDups, h, List.mem_map]
  constructor
  · rintro ⟨k, hk, rfl⟩
    exact ⟨Int.natCast_nonneg k, Int.ofNat_lt.mpr (List.mem_range.mp hk)⟩
  · rintro ⟨hnonneg, hlt⟩
    obtain ⟨k, rfl⟩ := Int.eq_ofNat_of_zero_le hnonneg
    exact ⟨k, List.mem_range.mpr (Int.ofNat_lt.mp hlt), rfl⟩

/-- Then the first occurrence of a number stands behind the smaller numbers and no
others. -/
lemma mem_before_iff_of_eraseDups_eq
    (h : (before ++ i :: after).eraseDups = (List.range n).map Int.ofNat) (hi : i ∉ before)
    {j : Int} : j ∈ before ↔ 0 ≤ j ∧ j < i := by
  rw [List.eraseDups_append, List.removeAll, List.filter_cons_of_pos (by simpa using hi),
    List.eraseDups_cons] at h
  obtain ⟨smaller, larger, hrange, hbefore, hlarger⟩ := List.map_eq_append_iff.mp h.symm
  rw [List.range_eq_range', List.range'_eq_append_iff] at hrange
  obtain ⟨k, -, rfl, rfl⟩ := hrange
  obtain ⟨first, tail, hcons, rfl, -⟩ := List.map_eq_cons_iff.mp hlarger
  obtain ⟨hfirst, -⟩ := List.range'_eq_cons_iff.mp hcons
  obtain rfl : first = k := by omega
  rw [← List.range_eq_range'] at hbefore
  exact mem_iff_of_eraseDups_eq hbefore.symm

end

/-! ### Free names of functions -/

namespace Tree

/-- The body of a function binds no environment. -/
lemma env_notMem_binders_functionDecl (k : Nat) (param : Text) {body : Tree}
    (hbody : ∀ x ∈ body.names, ¬ looksMinted x) :
    mintEnv k ∉ (functionDecl k param body).body.binders := by
  rw [functionDecl, Expr.binders_substitute fun p hp => isRead_of_mem_slots hp]
  intro hmem
  rcases mem_names_of_mem_binders_convert hmem with hname | ⟨j, htemp⟩
  · exact hbody _ hname (looksMinted_mintEnv k)
  · exact mintEnv_ne_mintTemp k j htemp

/-- The environment of a function is free in its body if and only if it has a
slot. -/
lemma env_mem_free_functionDecl_iff (k : Nat) {param : Text} {body : Tree}
    (hnames : ∀ x ∈ (lam param body).names, ¬ looksMinted x) :
    (functionDecl k param body).env ∈ (functionDecl k param body).body.free ↔
      0 < (functionDecl k param body).slotCount := by
  obtain ⟨hparam, hbody⟩ := List.forall_mem_cons.mp hnames
  have hwf := wellFormed_functionDecl k param body
  have harg : mintEnv k ≠ param := fun heq => hparam (heq ▸ looksMinted_mintEnv k)
  rw [Decl.env_mem_free_iff hwf harg (env_notMem_binders_functionDecl k param hbody)]
  constructor
  · rintro ⟨r, hr⟩
    obtain ⟨-, hle, hlt⟩ := Decl.of_mem_slotReads hwf hr
    exact lt_of_le_of_lt hle hlt
  · intro hpos
    -- the first slot is read
    have hindices := eraseDups_slotIndices_functionDecl k param hbody
    have hzero : 0 ∈ (functionDecl k param body).slotIndices :=
      (mem_iff_of_eraseDups_eq hindices).mpr ⟨le_rfl, hpos⟩
    obtain ⟨r, hr, -⟩ := List.mem_map.mp hzero
    exact ⟨r, hr⟩

end Tree

/-- Whether a declaration takes the parameter of a function, has one slot for each
of its free names and has nothing free in its body but its own parameters: the
environment exactly if there are slots. -/
structure Decl.ClosesOver (d : Decl) (param : Text) (body : Tree) : Prop where
  arg_eq : d.arg = param
  slotCount_eq : d.slotCount = (Tree.lam param body).free.length
  eq_of_mem_free : ∀ x ∈ d.body.free, x = d.arg ∨ x = d.env
  env_mem_free_iff : d.env ∈ d.body.free ↔ 0 < d.slotCount

namespace Tree

/-- **Conversion keeps free names.** If no name of a tree looks minted, what is
left of the tree has its free names, in their order. The declarations are those of
the functions of the tree, and in their bodies nothing is free but their own
parameters. -/
theorem convert_keeps_free_names {t : Tree} (ht : ∀ x ∈ t.names, ¬ looksMinted x) (n : Nat) :
    (t.convert n).expr.free = t.free ∧
    List.Forall₂ (fun f d => d.ClosesOver f.1 f.2) t.functions (t.convert n).decls := by
  refine ⟨t.free_expr_convert ht n, (t.forall₂_functions ht n).imp ?_⟩
  rintro ⟨param, body⟩ d ⟨hnames, k, rfl⟩
  have hwf := wellFormed_functionDecl k param body
  exact ⟨rfl, rfl, fun x hx => Decl.eq_of_mem_free hwf hx, env_mem_free_functionDecl_iff k hnames⟩

/-- A function inside another one captures the parameter of the latter and a name
that is free in both. -/
theorem convert_keeps_free_names_nested :
    let inner := app (app (var "x") (var "z")) (var "y")
    let t := lam "x" (lam "y" inner)
    (∀ x ∈ t.names, ¬ looksMinted x) ∧ (t.convert 3).expr.free = [Text.ofString "z"] ∧
    List.Forall₂ (fun (f : Text × Tree) d => d.ClosesOver f.1 f.2)
      [("y", inner), ("x", lam "y" inner)] (t.convert 3).decls := by
  intro inner t
  have ht : ∀ x ∈ t.names, ¬ looksMinted x := by decide
  exact ⟨ht, convert_keeps_free_names ht 3⟩

/-! ### Slots of a program -/

/-- **Slots are exact and in order.** The slots that the body of a declaration
reads are, without repeats, all its slots from the first to the last. So each of
them is read and no other is, and at the first read of one the slots before it
have been read. -/
theorem toProgram_captures_in_order (t : Tree) {d : Decl} (hd : d ∈ t.toProgram.decls) :
    ∃ count : Nat, d.slotCount = count ∧
      d.slotIndices.eraseDups = (List.range count).map Int.ofNat ∧
      (∀ i, i ∈ d.slotIndices ↔ 0 ≤ i ∧ i < d.slotCount) ∧
      ∀ before i after, d.slotIndices = before ++ i :: after → i ∉ before →
        ∀ j, j ∈ before ↔ 0 ≤ j ∧ j < i := by
  rw [decls_toProgram] at hd
  obtain ⟨⟨param, body⟩, -, hnames, k, rfl⟩ := exists_of_mem_right
    (t.hygienic.forall₂_functions (fun x hx => not_looksMinted_of_mem_hygienic hx) 0) hd
  have hindices := eraseDups_slotIndices_functionDecl k param (List.forall_mem_cons.mp hnames).2
  refine ⟨(lam param body).free.length, rfl, hindices, fun i => mem_iff_of_eraseDups_eq hindices,
    fun before i after heq hi j => ?_⟩
  rw [heq] at hindices
  exact mem_before_iff_of_eraseDups_eq hindices hi

/-- A function that reads its second free name again, after its first one has been
shadowed. -/
theorem toProgram_captures_in_order_shadowed :
    let t := lam "p" (app (app (var "a") (letIn "a" (var "b") (app (var "a") (var "b")))) (var "p"))
    ∃ d ∈ t.toProgram.decls, d.slotIndices = [0, 1, 1] ∧ ∃ count : Nat, d.slotCount = count ∧
      d.slotIndices.eraseDups = (List.range count).map Int.ofNat := by
  intro t
  have hindices : t.toProgram.decls.map Decl.slotIndices = [[0, 1, 1]] := by decide +kernel
  have hmem : [0, 1, 1] ∈ t.toProgram.decls.map Decl.slotIndices := by simp [hindices]
  obtain ⟨d, hd, hslots⟩ := List.mem_map.mp hmem
  obtain ⟨count, hcount, hrange, -⟩ := toProgram_captures_in_order t hd
  exact ⟨d, hd, hslots, count, hcount, hrange⟩

end Tree

end FlatClosure
