/-
Numerals and the names that are made from them.

* `Text.decimalValue_ofNat`: a numeral reads back as its number, so numerals
  are different for different numbers (`Text.ofNat_injective`).
* `mintCode_injective`, `mintEnv_injective`, `mintTemp_injective`: minted names with
  different numbers differ; `looksMinted_append_ofNat`: they have the shape that
  hygiene looks for.
* `looksMinted_iff`: this shape is a stem followed by digits.
* `isDigit_getLast_of_looksMinted`: a minted name ends in a digit.
* `exists_notMem_of_injective`: of one candidate more than there are names in
  use, one is not in use.
-/
import Mathlib.Data.List.Nodup
import Mathlib.Data.List.Perm.Subperm
import FlatClosure.Tree.Hygiene

namespace FlatClosure

/-! ### Numerals -/

namespace Text

/-- The byte of a decimal digit has the number of its character. -/
lemma toNat_toUInt8_of_isDigit {c : Char} (hc : c.isDigit) :
    c.toUInt8.toNat = c.toNat := by
  have hle : c.toNat ≤ 57 := (Char.isDigit_iff_toNat.mp hc).2
  rw [Char.toUInt8, UInt32.toNat_toUInt8]
  exact Nat.mod_eq_of_lt (Nat.lt_of_le_of_lt hle (by decide))

/-- The bytes of a numeral are digits. -/
lemma isDigit_of_mem_ofNat {b : UInt8} {n : Nat} (hb : b ∈ ofNat n) : isDigit b := by
  obtain ⟨c, hc, rfl⟩ := List.mem_map.mp hb
  have hdigit := Nat.isDigit_of_mem_toDigits (by decide) (by decide) hc
  have hnat := toNat_toUInt8_of_isDigit hdigit
  have h := Char.isDigit_iff_toNat.mp hdigit
  rw [isDigit, Bool.and_eq_true, decide_eq_true_iff, decide_eq_true_iff, UInt8.le_iff_toNat_le,
    UInt8.le_iff_toNat_le, hnat]
  exact h

lemma ofNat_ne_nil (n : Nat) : ofNat n ≠ [] := by
  intro h
  exact Nat.toDigits_ne_nil (List.map_eq_nil_iff.mp h)

/-- A numeral reads back as its number. -/
lemma decimalValue_ofNat (n : Nat) : decimalValue (ofNat n) = n := by
  have hfold : ∀ (cs : List Char) (k : Nat), (∀ c ∈ cs, c.isDigit) →
      (cs.map Char.toUInt8).foldl (fun n b => 10 * n + (b.toNat - 48)) k =
        Nat.ofDigitChars 10 cs k := by
    intro cs
    induction cs with
    | nil => simp
    | cons c cs ih =>
        intro k hcs
        rw [List.map_cons, List.foldl_cons, Nat.ofDigitChars_cons,
          toNat_toUInt8_of_isDigit (hcs c List.mem_cons_self)]
        exact ih _ fun d hd => hcs d (List.mem_cons_of_mem _ hd)
  have hdigits : ∀ c ∈ Nat.toDigits 10 n, c.isDigit := fun c hc =>
    Nat.isDigit_of_mem_toDigits (by decide) (by decide) hc
  rw [decimalValue, ofNat, hfold _ _ hdigits, Nat.ofDigitChars_ten_toDigits]

lemma ofNat_injective : Function.Injective ofNat := by
  intro m n h
  rw [← decimalValue_ofNat m, h, decimalValue_ofNat]

end Text

/-! ### Minted names -/

lemma mintCode_injective : Function.Injective mintCode := fun _ _ h =>
  Text.ofNat_injective (List.append_cancel_left h)

lemma mintEnv_injective : Function.Injective mintEnv := fun _ _ h =>
  Text.ofNat_injective (List.append_cancel_left h)

lemma mintTemp_injective : Function.Injective mintTemp := fun _ _ h =>
  Text.ofNat_injective (List.append_cancel_left h)

/-- The names that look minted are the stems followed by digits. -/
lemma looksMinted_iff {name : Text} :
    looksMinted name ↔ ∃ stem ∈ mintedStems, ∃ digits, digits ≠ [] ∧
      (∀ b ∈ digits, Text.isDigit b) ∧ name = stem ++ digits := by
  rw [looksMinted, List.any_eq_true]
  refine exists_congr fun stem => and_congr_right fun _ => ?_
  constructor
  · intro h
    split at h
    · rename_i digits hstrip
      rw [List.isPrefixOf?_eq_some_iff_append_eq] at hstrip
      simp only [Bool.and_eq_true, Bool.not_eq_true', List.isEmpty_eq_false_iff,
        List.all_eq_true] at h
      exact ⟨digits, h.1, h.2, hstrip.symm⟩
    · exact absurd h (by simp)
  · rintro ⟨digits, hne, hdigits, rfl⟩
    have hstrip : stem.isPrefixOf? (stem ++ digits) = some digits := by
      rw [List.isPrefixOf?_eq_some_iff_append_eq]
    rw [hstrip]
    simp only [Bool.and_eq_true, Bool.not_eq_true', List.isEmpty_eq_false_iff, List.all_eq_true]
    exact ⟨hne, hdigits⟩

/-- A stem followed by a numeral looks minted. -/
lemma looksMinted_append_ofNat {stem : Text} (hstem : stem ∈ mintedStems) (n : Nat) :
    looksMinted (stem ++ Text.ofNat n) :=
  looksMinted_iff.mpr
    ⟨stem, hstem, _, Text.ofNat_ne_nil n, fun _ hb => Text.isDigit_of_mem_ofNat hb, rfl⟩

lemma looksMinted_mintEnv (n : Nat) : looksMinted (mintEnv n) :=
  looksMinted_append_ofNat (by simp [mintedStems]) n

lemma looksMinted_mintCode (n : Nat) : looksMinted (mintCode n) :=
  looksMinted_append_ofNat (by simp [mintedStems]) n

lemma looksMinted_mintTemp (n : Nat) : looksMinted (mintTemp n) :=
  looksMinted_append_ofNat (by simp [mintedStems]) n

lemma mintEnv_ne_mintTemp (i j : Nat) : mintEnv i ≠ mintTemp j := by
  intro h
  have hhead : some (101 : UInt8) = some 95 := congrArg List.head? h
  exact absurd hhead (by decide)

lemma mintCode_ne_mintTemp (i j : Nat) : mintCode i ≠ mintTemp j := by
  intro h
  have hhead : some (99 : UInt8) = some 95 := congrArg List.head? h
  exact absurd hhead (by decide)

lemma mintCode_ne_mintEnv (i j : Nat) : mintCode i ≠ mintEnv j := by
  intro h
  have hhead : some (99 : UInt8) = some 101 := congrArg List.head? h
  exact absurd hhead (by decide)

/-- A minted name ends in a digit. -/
lemma isDigit_getLast_of_looksMinted {name : Text} (h : looksMinted name) :
    ∃ b, name.getLast? = some b ∧ Text.isDigit b := by
  obtain ⟨stem, -, digits, hne, hall, rfl⟩ := looksMinted_iff.mp h
  refine ⟨digits.getLast hne, ?_, hall _ (List.getLast_mem hne)⟩
  rw [List.getLast?_append, List.getLast?_eq_some_getLast hne]
  rfl

/-! ### Names not in use -/

/-- Of one candidate more than there are names in use, one is not in use. -/
lemma exists_notMem_of_injective {candidate : Nat → Text}
    (hinj : Function.Injective candidate) (used : List Text) :
    ∃ k ≤ used.length, candidate k ∉ used := by
  by_contra hall
  push Not at hall
  have hsub : (List.range (used.length + 1)).map candidate ⊆ used := by
    intro name hname
    obtain ⟨k, hk, rfl⟩ := List.mem_map.mp hname
    exact hall k (Nat.lt_succ_iff.mp (List.mem_range.mp hk))
  have hle := (List.subperm_of_subset (List.Nodup.map hinj List.nodup_range) hsub).length_le
  rw [List.length_map, List.length_range] at hle
  omega

end FlatClosure
