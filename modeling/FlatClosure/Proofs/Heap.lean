/-
The memory of a compiled program.

Compiled programs keep values in records on a heap, and captured values in
arrays of pointers to records. Nothing is freed, and a record is never changed.

* `Record`, `Heap`: records and arrays; code pointers are of any type, since
  targets name code in different ways.
* `Heap.buildInt`, `Heap.buildClosure`, `Heap.printed`: the support functions
  `build_int`, `build_cls` and `print_val`.
* `Heap.Extends`: a heap that keeps the records and the filled cells of
  another. Allocation extends a heap, and so does filling an empty cell.
* `Stored`, `StoredEnv`: a value lies at an address, captured values lie in an
  array; `Stored.mono`: they still do in an extension.
-/
import Mathlib.Data.List.Forall2
import FlatClosure.Machine

namespace FlatClosure

/-! ### Records and arrays -/

/-- Where a record or an array lies. -/
abbrev Address := Nat

/-- A record `val_t`: the tag and what the union holds for it. -/
inductive Record (κ : Type) where
  | int (value : Int32)
  /-- Code and environment; there is none at the null pointer. -/
  | closure (code : κ) (env : Option Address)

/-- Records and arrays in the order in which they were allocated. A cell that
nothing has been written to is empty. -/
structure Heap (κ : Type) where
  records : List (Record κ)
  arrays : List (List (Option Address))

namespace Heap

variable {κ : Type}

/-- The heap of a program that starts. -/
def empty : Heap κ := ⟨[], []⟩

/-- The heap after a record was allocated, with its address. -/
def newRecord (h : Heap κ) (r : Record κ) : Address × Heap κ :=
  (h.records.length, { h with records := h.records ++ [r] })

/-- The heap after an array was allocated, with its address. -/
def newArray (h : Heap κ) (cells : List (Option Address)) : Address × Heap κ :=
  (h.arrays.length, { h with arrays := h.arrays ++ [cells] })

/-- The record at an address. -/
def record? (h : Heap κ) (a : Address) : Option (Record κ) := h.records[a]?

/-- What was written to a cell of an array. -/
def cell? (h : Heap κ) (array : Address) (index : Int) : Option Address :=
  if 0 ≤ index then (h.arrays[array]?.bind (·[index.toNat]?)).join else none

/-- What was written to a cell of an environment. -/
def envCell? (h : Heap κ) (env : Option Address) (index : Int) : Option Address :=
  env.bind fun array => h.cell? array index

/-- The heap after an address was written to a cell, if the array has the
cell. -/
def setCell? (h : Heap κ) (array : Address) (index : Int) (a : Address) : Option (Heap κ) :=
  h.arrays[array]?.bind fun cells =>
    if 0 ≤ index ∧ index < cells.length then
      some { h with arrays := h.arrays.set array (cells.set index.toNat (some a)) }
    else none

/-! ### Support functions -/

/-- `build_int` -/
def buildInt (h : Heap κ) (value : Int32) : Address × Heap κ := h.newRecord (.int value)

/-- `build_cls` -/
def buildClosure (h : Heap κ) (code : κ) (env : Option Address) : Address × Heap κ :=
  h.newRecord (.closure code env)

/-- `print_val` -/
def printed (h : Heap κ) (a : Address) : Option Text :=
  match h.record? a with
  | some (.closure _ _) => some (closureText ++ "\n")
  | some (.int value) => some (Text.ofInt value.toInt ++ "\n")
  | none => none

/-! ### Extensions -/

/-- Whether a heap keeps the records and the filled cells of another. -/
structure Extends (h h' : Heap κ) : Prop where
  record : ∀ a r, h.record? a = some r → h'.record? a = some r
  cell : ∀ array index a, h.cell? array index = some a → h'.cell? array index = some a

variable {h h' h'' : Heap κ}

lemma Extends.refl (h : Heap κ) : h.Extends h := ⟨fun _ _ hr => hr, fun _ _ _ hc => hc⟩

lemma Extends.trans (hh' : h.Extends h') (hh'' : h'.Extends h'') : h.Extends h'' :=
  ⟨fun a r hr => hh''.record a r (hh'.record a r hr),
    fun array index a hc => hh''.cell array index a (hh'.cell array index a hc)⟩

lemma Extends.envCell (hh' : h.Extends h') {env : Option Address} {index : Int} {a : Address}
    (hc : h.envCell? env index = some a) : h'.envCell? env index = some a := by
  cases env with
  | none => exact absurd hc (by simp [envCell?])
  | some array => exact hh'.cell array index a hc

lemma extends_newRecord (h : Heap κ) (r : Record κ) : h.Extends (h.newRecord r).2 := by
  refine ⟨fun a r' hr => ?_, fun array index a hc => hc⟩
  have hlt : a < h.records.length := (List.getElem?_eq_some_iff.mp hr).1
  rw [record?, newRecord, List.getElem?_append_left hlt]
  exact hr

lemma record?_newRecord (h : Heap κ) (r : Record κ) :
    (h.newRecord r).2.record? (h.newRecord r).1 = some r := by
  simp [record?, newRecord]

lemma extends_newArray (h : Heap κ) (cells : List (Option Address)) :
    h.Extends (h.newArray cells).2 := by
  refine ⟨fun a r hr => hr, fun array index a hc => ?_⟩
  rw [cell?] at hc ⊢
  split_ifs at hc ⊢ with hindex
  cases harray : h.arrays[array]? with
  | none => simp [harray] at hc
  | some cells' =>
      have hlt : array < h.arrays.length := (List.getElem?_eq_some_iff.mp harray).1
      rw [newArray, List.getElem?_append_left hlt]
      exact hc

lemma arrays_newArray (h : Heap κ) (cells : List (Option Address)) :
    (h.newArray cells).2.arrays[(h.newArray cells).1]? = some cells := by
  simp [newArray]

/-- Writing to the first empty cell of an array that is filled from the left
keeps what was written before. -/
lemma exists_setCell? {array : Address} {filled : List Address} {rest : List (Option Address)}
    (harray : h.arrays[array]? = some (filled.map some ++ none :: rest)) (a : Address) :
    ∃ h', h.setCell? array filled.length a = some h' ∧ h.Extends h' ∧
      h'.arrays[array]? = some ((filled ++ [a]).map some ++ rest) := by
  have hlt : array < h.arrays.length := (List.getElem?_eq_some_iff.mp harray).1
  have hset : (filled.map some ++ none :: rest).set filled.length (some a) =
      (filled ++ [a]).map some ++ rest := by
    rw [List.set_append_right _ _ (by simp)]
    simp
  refine ⟨{ h with arrays := h.arrays.set array ((filled ++ [a]).map some ++ rest) }, ?_,
    ⟨fun _ _ hr => hr, fun array' index a' hc => ?_⟩, by simp [hlt]⟩
  · have hindex : (0 : Int) ≤ filled.length ∧
        (filled.length : Int) < (filled.map some ++ none :: rest).length := by
      rw [List.length_append, List.length_map, List.length_cons]
      omega
    rw [setCell?, harray, Option.bind_some, if_pos hindex, Int.toNat_natCast, hset]
  · rw [cell?] at hc ⊢
    split_ifs at hc ⊢ with hindex
    by_cases heq : array' = array
    · -- the cell that was written was empty, so it is not the one that is read
      rw [heq, harray, Option.bind_some] at hc
      have hne : filled.length ≠ index.toNat := by
        intro hidx
        rw [← hidx, List.getElem?_append_right (by simp)] at hc
        simp at hc
      rw [heq, List.getElem?_set_self hlt, Option.bind_some, ← hset, List.getElem?_set_ne hne]
      exact hc
    · rw [List.getElem?_set_ne (Ne.symm heq)]
      exact hc

end Heap

/-! ### Stored values -/

section

variable {κ : Type} (Code : Decl → κ → Prop)

/-- A value lies at an address; `Code` tells which code pointers stand for a
declaration. -/
inductive Stored (h : Heap κ) : Value → Address → Prop where
  | int {value : Int32} {a : Address} (hrecord : h.record? a = some (.int value)) :
      Stored h (.int value) a
  | closure {d : Decl} {values : List Value} {code : κ} {env : Option Address} {a : Address}
      (hrecord : h.record? a = some (.closure code env)) (hcode : Code d code)
      (hcell : ∀ (i : Nat) v, values[i]? = some v → (h.envCell? env i).isSome)
      (hvalue : ∀ (i : Nat) v b, values[i]? = some v → h.envCell? env i = some b →
        Stored h v b) :
      Stored h (.closure d values) a

/-- Captured values lie in the cells of an environment. -/
def StoredEnv (h : Heap κ) (values : List Value) (env : Option Address) : Prop :=
  ∀ (i : Nat) v, values[i]? = some v → ∃ a, h.envCell? env i = some a ∧ Stored Code h v a

variable {Code} {h h' : Heap κ}

/-- A stored value is stored in every extension. -/
lemma Stored.mono (hh' : h.Extends h') {v : Value} {a : Address} (hv : Stored Code h v a) :
    Stored Code h' v a := by
  induction hv with
  | int hrecord => exact .int (hh'.record _ _ hrecord)
  | @closure d values code env a hrecord hcode hcell hvalue ih =>
      have hcell' : ∀ (i : Nat) v, values[i]? = some v →
          ∃ b, h.envCell? env i = some b ∧ h'.envCell? env i = some b := by
        intro i v hv
        obtain ⟨b, hb⟩ := Option.isSome_iff_exists.mp (hcell i v hv)
        exact ⟨b, hb, hh'.envCell hb⟩
      refine .closure (hh'.record _ _ hrecord) hcode (fun i v hv => ?_) (fun i v b hv hb => ?_)
      · obtain ⟨b, -, hb⟩ := hcell' i v hv
        exact Option.isSome_iff_exists.mpr ⟨b, hb⟩
      · obtain ⟨b', hb', hb''⟩ := hcell' i v hv
        have heq : b' = b := Option.some.inj (hb''.symm.trans hb)
        exact ih i v b hv (heq ▸ hb')

lemma StoredEnv.mono (hh' : h.Extends h') {values : List Value} {env : Option Address}
    (henv : StoredEnv Code h values env) : StoredEnv Code h' values env := by
  intro i v hv
  obtain ⟨a, ha, hstored⟩ := henv i v hv
  exact ⟨a, hh'.envCell ha, hstored.mono hh'⟩

/-- A closure lies where its code and the array of its captured values are. -/
lemma stored_closure_iff {d : Decl} {values : List Value} {a : Address} :
    Stored Code h (.closure d values) a ↔ ∃ code env,
      h.record? a = some (.closure code env) ∧ Code d code ∧ StoredEnv Code h values env := by
  constructor
  · intro hv
    cases hv with
    | closure hrecord hcode hcell hvalue =>
        refine ⟨_, _, hrecord, hcode, fun i v hv => ?_⟩
        obtain ⟨b, hb⟩ := Option.isSome_iff_exists.mp (hcell i v hv)
        exact ⟨b, hb, hvalue i v b hv hb⟩
  · rintro ⟨code, env, hrecord, hcode, henv⟩
    refine .closure hrecord hcode (fun i v hv => ?_) (fun i v b hv hb => ?_)
    · obtain ⟨b, hb, -⟩ := henv i v hv
      exact Option.isSome_iff_exists.mpr ⟨b, hb⟩
    · obtain ⟨b', hb', hstored⟩ := henv i v hv
      have heq : b' = b := Option.some.inj (hb'.symm.trans hb)
      exact heq ▸ hstored

/-- Nothing has to be stored for no captured values. -/
lemma storedEnv_nil (env : Option Address) : StoredEnv Code h [] env := by
  intro i v hv
  exact absurd hv (by simp)

/-- An array of the addresses of values stores the values. -/
lemma storedEnv_of_array {values : List Value} {addresses : List Address} {array : Address}
    (harray : h.arrays[array]? = some (addresses.map some))
    (hstored : List.Forall₂ (Stored Code h) values addresses) :
    StoredEnv Code h values (some array) := by
  intro i v hv
  obtain ⟨hlt, rfl⟩ := List.getElem?_eq_some_iff.mp hv
  have hlt' : i < addresses.length := hstored.length_eq ▸ hlt
  refine ⟨addresses[i], ?_, ?_⟩
  · rw [Heap.envCell?, Option.bind_some, Heap.cell?, if_pos (Int.natCast_nonneg i), harray,
      Option.bind_some, Int.toNat_natCast, List.getElem?_map, List.getElem?_eq_getElem hlt']
    rfl
  · exact List.forall₂_iff_get.mp hstored |>.2 i hlt hlt'

lemma stored_buildInt (h : Heap κ) (value : Int32) :
    Stored Code (h.buildInt value).2 (.int value) (h.buildInt value).1 :=
  .int (h.record?_newRecord _)

/-- A closure that is built over stored values is stored. -/
lemma stored_buildClosure {d : Decl} {code : κ} (hcode : Code d code) {values : List Value}
    {env : Option Address} (henv : StoredEnv Code h values env) :
    Stored Code (h.buildClosure code env).2 (.closure d values) (h.buildClosure code env).1 :=
  stored_closure_iff.mpr ⟨code, env, h.record?_newRecord _, hcode,
    henv.mono (h.extends_newRecord _)⟩

/-- A stored value is printed as the value is. -/
lemma Stored.printed_eq {v : Value} {a : Address} (hv : Stored Code h v a) :
    h.printed a = some (v.render ++ "\n") := by
  cases hv with
  | int hrecord => rw [Heap.printed, hrecord]; rfl
  | closure hrecord => rw [Heap.printed, hrecord]; rfl

end

end FlatClosure
