/-
The lexical grammar.

A lexeme is a numeral, an identifier, a keyword or a punctuation mark. Several
lexemes may start a text: `fun` and `funny` start `funny x`, and `=` and `=>`
start `=> x`.

* `IsLexeme`: the lexemes of the language, with their kinds and values.
* `LongestAt`: a lexeme starts a text, and no longer one does.
* `longestAt_iff`: the first lexeme of a text is the longest lexeme that starts
  it; `Lexeme.first?_eq_none_iff`: there is none when no lexeme starts the text.
* `Text.EndsLexeme`: texts that start with no byte that a lexeme continues with;
  `IsLexeme.longestAt_append`: a lexeme is the longest one in front of them.
-/
import Mathlib.Data.List.TakeWhile
import FlatClosure.Proofs.Words

namespace FlatClosure

/-- The lexemes that are spelled in one way. -/
def fixedLexemes : List (Kind × Text) :=
  [(.funKeyword, "fun"), (.letKeyword, "let"), (.leftParen, "("), (.rightParen, ")"),
    (.comma, ","), (.semicolon, ";"), (.equal, "="), (.arrow, "=>")]

/-- **The lexemes**, each with its kind and its value: the value of a numeral is
that of the digits before the dot, and all other lexemes have value zero. -/
inductive IsLexeme : Kind → Text → Nat → Prop
  | whole {digits : Text} (hne : digits ≠ []) (hdigits : ∀ b ∈ digits, Text.isDigit b) :
      IsLexeme .number digits (Text.decimalValue digits)
  | decimal {digits fraction : Text} (hne : digits ≠ []) (hdigits : ∀ b ∈ digits, Text.isDigit b)
      (hfne : fraction ≠ []) (hfraction : ∀ b ∈ fraction, Text.isDigit b) :
      IsLexeme .number (digits ++ 46 :: fraction) (Text.decimalValue digits)
  | symbol {word : Text} (hword : word.isWord) (hfun : word ≠ "fun") (hlet : word ≠ "let") :
      IsLexeme .symbol word 0
  | fixed {kind : Kind} {text : Text} (hmem : (kind, text) ∈ fixedLexemes) :
      IsLexeme kind text 0

/-- A lexeme starts a text, and no longer lexeme does. -/
structure LongestAt (kind : Kind) (text : Text) (value : Nat) (s : Text) : Prop where
  isLexeme : IsLexeme kind text value
  starts : text <+: s
  longest : ∀ {kind' text' value'}, IsLexeme kind' text' value' → text' <+: s →
    text'.length ≤ text.length

/-! ### Bytes -/

namespace Text

variable {b : UInt8}

lemma isBlank_eq_false_of_isDigit (h : isDigit b) : isBlank b = false := by
  simp only [isDigit, isBlank] at *
  grind

lemma isBlank_eq_false_of_isWordByte (h : isWordByte b) : isBlank b = false := by
  simp only [isWordByte, isLetter, isDigit, isBlank] at *
  grind

lemma isDigit_eq_false_of_isLetter (h : isLetter b) : isDigit b = false := by
  simp only [isLetter, isDigit] at *
  grind

end Text

/-! ### Numerals and words at the start of a text -/

namespace Lexeme

open Text

/-- At a digit a numeral is taken. -/
lemma first?_of_isDigit {b : UInt8} (h : isDigit b) (rest : Text) :
    first? (b :: rest) = some ⟨.number, numeral (b :: rest)⟩ := by
  rw [first?, if_pos h]
  all_goals
    intros
    subst b
    exact absurd h (by decide)

/-- At a letter a word is taken. -/
lemma first?_of_isLetter {b : UInt8} (h : isLetter b) (rest : Text) :
    first? (b :: rest) =
      some ⟨wordKind ((b :: rest).takeWhile isWordByte), (b :: rest).takeWhile isWordByte⟩ := by
  rw [first?, if_neg (by simp [isDigit_eq_false_of_isLetter h]), if_pos h]
  all_goals
    intros
    subst b
    exact absurd h (by decide)

/-- A numeral is a run of digits, or two of them with a dot between. -/
lemma numeral_cases (s : Text) :
    numeral s = s.takeWhile isDigit ∨
      ∃ rest, s.dropWhile isDigit = 46 :: rest ∧ rest.takeWhile isDigit ≠ [] ∧
        numeral s = s.takeWhile isDigit ++ 46 :: rest.takeWhile isDigit := by
  fun_cases numeral s with
  | case1 whole rest hdot hnone => exact .inl rfl
  | case2 whole rest hdot hsome => exact .inr ⟨rest, hdot, hsome, rfl⟩
  | case3 whole hnone => exact .inl rfl

lemma takeWhile_starts_numeral (s : Text) : s.takeWhile isDigit <+: numeral s := by
  rcases numeral_cases s with h | ⟨rest, -, -, h⟩
  · exact ⟨[], by rw [h, List.append_nil]⟩
  · exact ⟨_, h.symm⟩

lemma numeral_starts (s : Text) : numeral s <+: s := by
  rcases numeral_cases s with h | ⟨rest, hdot, -, h⟩
  · exact h ▸ List.takeWhile_prefix _
  · refine ⟨rest.dropWhile isDigit, ?_⟩
    calc numeral s ++ rest.dropWhile isDigit
        = s.takeWhile isDigit ++ 46 :: (rest.takeWhile isDigit ++ rest.dropWhile isDigit) := by
          rw [h, List.append_assoc, List.cons_append]
      _ = s.takeWhile isDigit ++ s.dropWhile isDigit := by
          rw [List.takeWhile_append_dropWhile, hdot]
      _ = s := List.takeWhile_append_dropWhile

/-- A numeral starts with the digits that the text starts with. -/
lemma takeWhile_numeral (s : Text) :
    (numeral s).takeWhile isDigit = s.takeWhile isDigit := by
  have hall : ∀ c ∈ s.takeWhile isDigit, isDigit c := fun c hc => List.mem_takeWhile_imp hc
  rcases numeral_cases s with h | ⟨rest, -, -, h⟩
  · rw [h, List.takeWhile_eq_self_iff.mpr hall]
  · rw [h, (span_append hall (by decide) _).1]

/-- The numeral at a dot that digits surround includes the dot. -/
lemma numeral_append_dot {digits fraction : Text} (hdigits : ∀ b ∈ digits, isDigit b)
    (hne : fraction ≠ []) (hfraction : ∀ b ∈ fraction, isDigit b) (rest : Text) :
    numeral (digits ++ 46 :: (fraction ++ rest)) =
      digits ++ 46 :: (fraction ++ rest.takeWhile isDigit) := by
  obtain ⟨htake, hdrop⟩ := span_append hdigits (by decide : isDigit 46 = false) (fraction ++ rest)
  obtain ⟨c, tail, rfl⟩ := List.exists_cons_of_ne_nil hne
  simp only [numeral, htake, hdrop, List.takeWhile_append_of_pos hfraction]
  rfl

/-- The word at a word continues as far as its bytes do. -/
lemma first?_word_append {word : Text} (h : word.isWord) (rest : Text) :
    first? (word ++ rest) =
      some ⟨wordKind (word ++ rest.takeWhile isWordByte), word ++ rest.takeWhile isWordByte⟩ := by
  obtain ⟨⟨b, tail, rfl, hb⟩, hall⟩ := isWord_iff.mp h
  rw [← List.takeWhile_append_of_pos hall, List.cons_append, first?_of_isLetter hb]

end Lexeme

/-! ### Lexemes -/

namespace IsLexeme

open Text

variable {kind : Kind} {text : Text} {value : Nat}

/-- The value is that of the lexeme. -/
lemma value_eq (h : IsLexeme kind text value) : (Lexeme.mk kind text).value = value := by
  cases h with
  | whole hne hdigits =>
      show decimalValue (text.takeWhile isDigit) = decimalValue text
      rw [List.takeWhile_eq_self_iff.mpr hdigits]
  | @decimal digits fraction hne hdigits hfne hfraction =>
      show decimalValue ((digits ++ 46 :: fraction).takeWhile isDigit) = decimalValue digits
      rw [(span_append hdigits (by decide) fraction).1]
  | symbol hword hfun hlet => rfl
  | fixed hmem =>
      have hall : ∀ p ∈ fixedLexemes, (Lexeme.mk p.1 p.2).value = 0 := by decide
      exact hall _ hmem

/-- No byte of a lexeme is a blank. -/
lemma isBlank_eq_false_of_mem (h : IsLexeme kind text value) {b : UInt8} (hb : b ∈ text) :
    isBlank b = false := by
  cases h with
  | whole hne hdigits => exact isBlank_eq_false_of_isDigit (hdigits b hb)
  | decimal hne hdigits hfne hfraction =>
      rcases List.mem_append.mp hb with hb | hb
      · exact isBlank_eq_false_of_isDigit (hdigits b hb)
      · rcases List.mem_cons.mp hb with rfl | hb
        · decide
        · exact isBlank_eq_false_of_isDigit (hfraction b hb)
  | symbol hword hfun hlet => exact isBlank_eq_false_of_isWordByte ((isWord_iff.mp hword).2 b hb)
  | fixed hmem =>
      have hall : ∀ p ∈ fixedLexemes, p.2.all (!isBlank ·) := by decide
      simpa using List.all_eq_true.mp (hall _ hmem) b hb

lemma lineFeed_notMem (h : IsLexeme kind text value) : 10 ∉ text :=
  fun hmem => absurd (h.isBlank_eq_false_of_mem hmem) (by decide)

lemma ne_nil (h : IsLexeme kind text value) : text ≠ [] := by
  cases h with
  | whole hne hdigits => exact hne
  | decimal hne hdigits hfne hfraction => simp
  | symbol hword hfun hlet =>
      obtain ⟨⟨b, tail, rfl, -⟩, -⟩ := isWord_iff.mp hword
      exact List.cons_ne_nil b tail
  | fixed hmem =>
      have hall : ∀ p ∈ fixedLexemes, p.2 ≠ [] := by decide
      exact hall _ hmem

/-- The kind of a word is that of its lexeme. -/
lemma of_isWord {word : Text} (h : word.isWord) : IsLexeme (Lexeme.wordKind word) word 0 := by
  rw [Lexeme.wordKind]
  split_ifs with hfun hlet
  · exact hfun ▸ .fixed (by decide)
  · exact hlet ▸ .fixed (by decide)
  · exact .symbol h hfun hlet

/-- The numeral at a digit is a lexeme. -/
lemma exists_numeral {b : UInt8} (hb : isDigit b) (rest : Text) :
    ∃ value, IsLexeme .number (Lexeme.numeral (b :: rest)) value := by
  have hne : (b :: rest).takeWhile isDigit ≠ [] := by simp [hb]
  have hall : ∀ s : Text, ∀ c ∈ s.takeWhile isDigit, isDigit c :=
    fun s c hc => List.mem_takeWhile_imp hc
  rcases Lexeme.numeral_cases (b :: rest) with h | ⟨tail, -, htail, h⟩
  · rw [h]
    exact ⟨_, .whole hne (hall _)⟩
  · rw [h]
    exact ⟨_, .decimal hne (hall _) htail (hall _)⟩

/-- Where a word stands, a word that is no shorter is taken. -/
lemma exists_first?_of_isWord {word : Text} (h : word.isWord) (rest : Text) :
    ∃ l, Lexeme.first? (word ++ rest) = some l ∧ word.length ≤ l.text.length ∧
      (l.text = word → l.kind = Lexeme.wordKind word) := by
  refine ⟨_, Lexeme.first?_word_append h rest, by simp, fun htext => ?_⟩
  exact congrArg Lexeme.wordKind htext

/-- Where a lexeme stands, one that is no shorter is taken, and its text
determines its kind. -/
lemma exists_first? (h : IsLexeme kind text value) (rest : Text) :
    ∃ l, Lexeme.first? (text ++ rest) = some l ∧ text.length ≤ l.text.length ∧
      (l.text = text → l.kind = kind) := by
  cases h with
  | whole hne hdigits =>
      obtain ⟨b, digits, rfl⟩ := List.exists_cons_of_ne_nil hne
      refine ⟨_, Lexeme.first?_of_isDigit (hdigits b (by simp)) _, ?_, fun _ => rfl⟩
      have hlength := (Lexeme.takeWhile_starts_numeral (b :: digits ++ rest)).length_le
      rw [List.takeWhile_append_of_pos hdigits, List.length_append] at hlength
      exact le_trans (Nat.le_add_right _ _) hlength
  | @decimal digits fraction hne hdigits hfne hfraction =>
      obtain ⟨b, digits, rfl⟩ := List.exists_cons_of_ne_nil hne
      have hnumeral := Lexeme.numeral_append_dot hdigits hfne hfraction rest
      have happend : b :: digits ++ 46 :: fraction ++ rest =
          b :: (digits ++ 46 :: (fraction ++ rest)) := by simp
      rw [happend]
      refine ⟨_, Lexeme.first?_of_isDigit (hdigits b (by simp)) _, ?_, fun _ => rfl⟩
      rw [List.cons_append] at hnumeral
      simp [hnumeral]
  | symbol hword hfun hlet =>
      have hkind : Lexeme.wordKind text = .symbol := by
        rw [Lexeme.wordKind, Kind.spelling, Kind.spelling, if_neg hfun, if_neg hlet]
      exact hkind ▸ exists_first?_of_isWord hword rest
  | fixed hmem =>
      simp only [fixedLexemes, List.mem_cons, Prod.mk.injEq, List.not_mem_nil, or_false] at hmem
      rcases hmem with ⟨rfl, rfl⟩ | ⟨rfl, rfl⟩ | ⟨rfl, rfl⟩ | ⟨rfl, rfl⟩ | ⟨rfl, rfl⟩ | ⟨rfl, rfl⟩ |
        ⟨rfl, rfl⟩ | ⟨rfl, rfl⟩
      · exact exists_first?_of_isWord (by decide) rest
      · exact exists_first?_of_isWord (by decide) rest
      · exact ⟨_, rfl, le_rfl, fun _ => rfl⟩
      · exact ⟨_, rfl, le_rfl, fun _ => rfl⟩
      · exact ⟨_, rfl, le_rfl, fun _ => rfl⟩
      · exact ⟨_, rfl, le_rfl, fun _ => rfl⟩
      · -- an arrow is longer than the sign it starts with
        by_cases harrow : ∃ tail, rest = 62 :: tail
        · obtain ⟨tail, rfl⟩ := harrow
          exact ⟨⟨.arrow, "=>"⟩, rfl, by decide, fun h => absurd h (by decide)⟩
        · have hfirst : Lexeme.first? (61 :: rest) = some ⟨.equal, "="⟩ :=
            Lexeme.first?.eq_7 rest fun tail htail => harrow ⟨tail, htail⟩
          exact ⟨_, hfirst, le_rfl, fun _ => rfl⟩
      · exact ⟨_, rfl, le_rfl, fun _ => rfl⟩

end IsLexeme

/-! ### The longest lexeme -/

/-- What is taken is a lexeme and starts the text. -/
lemma Lexeme.isLexeme_of_first? {s : Text} {l : Lexeme} (h : first? s = some l) :
    IsLexeme l.kind l.text l.value ∧ l.text <+: s := by
  suffices hex : (∃ value, IsLexeme l.kind l.text value) ∧ l.text <+: s by
    obtain ⟨⟨value, hlexeme⟩, hstarts⟩ := hex
    exact ⟨hlexeme.value_eq ▸ hlexeme, hstarts⟩
  revert h
  fun_cases first? s <;> intro h
  case case8 b rest _ _ _ _ _ _ hdigit =>
      cases h
      exact ⟨IsLexeme.exists_numeral hdigit rest, numeral_starts _⟩
  case case9 b rest _ _ _ _ _ _ hdigit hletter word =>
      cases h
      have hword := Text.isWord_takeWhile hletter rest
      exact ⟨⟨0, IsLexeme.of_isWord hword⟩, List.takeWhile_prefix _⟩
  all_goals cases h
  all_goals exact ⟨⟨0, .fixed (by decide)⟩, ⟨_, rfl⟩⟩

/-- **The first lexeme of a text is the longest lexeme that starts it.** -/
lemma longestAt_iff {kind : Kind} {text : Text} {value : Nat} {s : Text} :
    LongestAt kind text value s ↔
      Lexeme.first? s = some ⟨kind, text⟩ ∧ (Lexeme.mk kind text).value = value := by
  constructor
  · rintro ⟨hlexeme, ⟨rest, rfl⟩, hlongest⟩
    obtain ⟨l, hfirst, hlength, hkind⟩ := hlexeme.exists_first? rest
    obtain ⟨htaken, hstarts⟩ := Lexeme.isLexeme_of_first? hfirst
    -- two starts of one length are equal
    have htext : l.text = text :=
      (List.prefix_of_prefix_length_le hstarts (List.prefix_append text rest)
        (hlongest htaken hstarts)).eq_of_length (le_antisymm (hlongest htaken hstarts) hlength)
    obtain ⟨kind', text'⟩ := l
    obtain rfl : text' = text := htext
    obtain rfl : kind' = kind := hkind rfl
    exact ⟨hfirst, hlexeme.value_eq⟩
  · rintro ⟨hfirst, rfl⟩
    obtain ⟨htaken, hstarts⟩ := Lexeme.isLexeme_of_first? hfirst
    refine ⟨htaken, hstarts, ?_⟩
    rintro kind' text' value' hlexeme ⟨rest, rfl⟩
    obtain ⟨l, hfirst', hlength, -⟩ := hlexeme.exists_first? rest
    rw [hfirst] at hfirst'
    cases hfirst'
    exact hlength

/-- None is taken exactly where no lexeme stands. -/
lemma Lexeme.first?_eq_none_iff {s : Text} :
    first? s = none ↔ ∀ kind text value, IsLexeme kind text value → ¬ text <+: s := by
  constructor
  · rintro hnone kind text value hlexeme ⟨rest, rfl⟩
    obtain ⟨l, hfirst, -⟩ := hlexeme.exists_first? rest
    rw [hnone] at hfirst
    cases hfirst
  · intro hno
    cases hfirst : first? s with
    | none => rfl
    | some l =>
        obtain ⟨htaken, hstarts⟩ := isLexeme_of_first? hfirst
        exact absurd hstarts (hno _ _ _ htaken)

lemma LongestAt.isBlank_eq_false {kind : Kind} {text rest : Text} {value : Nat} {b : UInt8}
    (h : LongestAt kind text value (b :: rest)) : Text.isBlank b = false := by
  obtain ⟨c, tail, rfl⟩ := List.exists_cons_of_ne_nil h.isLexeme.ne_nil
  obtain ⟨rfl, -⟩ := List.cons_prefix_cons.mp h.starts
  exact h.isLexeme.isBlank_eq_false_of_mem List.mem_cons_self

/-! ### Where a lexeme ends -/

/-- A byte that may stand in a lexeme after its first byte. -/
def Text.isInner (b : UInt8) : Bool := isWordByte b || b == 46 || b == 62

/-- A lexeme in front of the text ends there: the text is empty or starts with a
byte that no lexeme continues with. -/
def Text.EndsLexeme (rest : Text) : Prop := ∀ b ∈ rest.head?, isInner b = false

lemma Text.endsLexeme_nil : EndsLexeme [] := fun _ h => absurd h (by simp)

lemma Text.endsLexeme_cons {b : UInt8} (h : isInner b = false) (rest : Text) :
    EndsLexeme (b :: rest) := fun _ hc => Option.some.inj hc ▸ h

namespace IsLexeme

variable {kind : Kind} {text : Text} {value : Nat}

lemma isInner_of_mem_tail (h : IsLexeme kind text value) {b : UInt8} (hb : b ∈ text.tail) :
    Text.isInner b := by
  have hdigit : Text.isDigit b → Text.isInner b := fun hb => by
    simp [Text.isInner, Text.isWordByte, hb]
  cases h with
  | whole hne hdigits => exact hdigit (hdigits b (List.mem_of_mem_tail hb))
  | decimal hne hdigits hfne hfraction =>
      rcases List.mem_append.mp (List.mem_of_mem_tail hb) with hb | hb
      · exact hdigit (hdigits b hb)
      · rcases List.mem_cons.mp hb with rfl | hb
        · decide
        · exact hdigit (hfraction b hb)
  | symbol hword hfun hlet =>
      simp [Text.isInner, (Text.isWord_iff.mp hword).2 b (List.mem_of_mem_tail hb)]
  | fixed hmem =>
      have hall : ∀ p ∈ fixedLexemes, p.2.tail.all Text.isInner := by decide
      exact List.all_eq_true.mp (hall _ hmem) b hb

/-- A lexeme is the longest one in front of a text where it ends. -/
lemma longestAt_append (h : IsLexeme kind text value) {rest : Text} (hrest : rest.EndsLexeme) :
    LongestAt kind text value (text ++ rest) := by
  refine ⟨h, List.prefix_append text rest, fun {kind' text' value'} h' hstarts => ?_⟩
  by_contra hlonger
  -- a longer lexeme has the first byte of the rest inside
  obtain ⟨more, rfl⟩ : text <+: text' :=
    List.prefix_of_prefix_length_le (List.prefix_append text rest) hstarts (by omega)
  have hmore : more <+: rest := (List.prefix_append_right_inj text).mp hstarts
  cases more with
  | nil => simp at hlonger
  | cons b more =>
      obtain ⟨tail, rfl⟩ := hmore
      obtain ⟨a, text, rfl⟩ := List.exists_cons_of_ne_nil h.ne_nil
      have hinner := h'.isInner_of_mem_tail (b := b) (by simp)
      rw [hrest b rfl] at hinner
      cases hinner

end IsLexeme

end FlatClosure
