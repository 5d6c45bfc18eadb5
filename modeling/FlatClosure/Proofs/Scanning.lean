/-
Scanning decomposes a source from left to right.

A source that can be scanned is blanks, a lexeme, blanks, a lexeme and so on,
and each lexeme is the longest one at its offset. A source that cannot be
scanned is decomposed in this way up to an offset where no lexeme stands or a
numeral is too large.

* `Token.StandsAt`: a token is that of the longest lexeme at an offset.
* `Piece`: blanks and the token behind them; `Piece.Decompose`: pieces that stand
  one behind the other.
* `Stuck`: the decomposition cannot be continued.
* `Token.scan_append`: scanning goes over pieces and blanks; `exists_pieces`:
  every text is pieces and blanks up to its end or up to where it is stuck.
* `Token.scan_leftmost_longest`: what scanning gives on every source.
-/
import FlatClosure.Proofs.Offsets

namespace FlatClosure

/-! ### Pieces of a source -/

/-- A token is that of the longest lexeme of a text that continues a source
behind `before`. -/
structure Token.StandsAt (token : Token) (before rest : Text) : Prop where
  ne_nil : token.lexeme ≠ []
  longest : ∃ value : Nat, LongestAt token.kind token.lexeme value rest ∧ value < literalLimit ∧
    token.value.toInt = value
  pos_eq : token.pos = before.endPos

/-- Blanks and the token that stands behind them. -/
structure Piece where
  blanks : Text
  token : Token
  isBlank_of_mem : ∀ b ∈ blanks, Text.isBlank b

namespace Piece

/-- The bytes of a piece. -/
def text (p : Piece) : Text := p.blanks ++ p.token.lexeme

/-- The pieces stand one behind the other, behind `before` and in front of
`rest`. -/
def Decompose (before : Text) : List Piece → Text → Prop
  | [], _ => True
  | p :: pieces, rest =>
      p.token.StandsAt (before ++ p.blanks) (p.token.lexeme ++ (pieces.flatMap text ++ rest)) ∧
        Decompose (before ++ p.text) pieces rest

end Piece

/-- At a byte that is no blank the decomposition cannot be continued: no lexeme
stands there, or the longest one is a numeral that is too large. -/
inductive Stuck : Text → UInt8 → LexError.Cause → Prop
  | unexpected {b : UInt8} {rest : Text} (hblank : Text.isBlank b = false)
      (hno : ∀ kind text value, IsLexeme kind text value → ¬ text <+: b :: rest) :
      Stuck (b :: rest) b .unexpected
  | outOfRange {b : UInt8} {rest text : Text} {value : Nat}
      (hlongest : LongestAt .number text value (b :: rest)) (hvalue : literalLimit ≤ value) :
      Stuck (b :: rest) b (.outOfRange text)

/-! ### Scanning over pieces -/

namespace Token

variable {before blanks rest : Text}

lemma scanFrom_blanks (hblanks : ∀ b ∈ blanks, Text.isBlank b) :
    scanFrom before.endPos (blanks ++ rest) = scanFrom (before ++ blanks).endPos rest := by
  induction blanks generalizing before with
  | nil => rw [List.append_nil, List.nil_append]
  | cons b blanks ih =>
      obtain ⟨hb, hblanks⟩ := List.forall_mem_cons.mp hblanks
      rw [List.cons_append, scanFrom, if_pos hb, ← Text.endPos_concat, ih hblanks,
        List.append_assoc, List.singleton_append]

/-- The token at an offset is taken. -/
lemma scanFrom_token {token : Token} (h : token.StandsAt before (token.lexeme ++ rest)) :
    scanFrom before.endPos (token.lexeme ++ rest) =
      (scanFrom (before ++ token.lexeme).endPos rest).map (token :: ·) := by
  obtain ⟨kind, lexeme, pos, value⟩ := token
  obtain ⟨hne, ⟨n, hlongest, hn, hvalue⟩, rfl⟩ := h
  dsimp only at hne hlongest hvalue ⊢
  have hlf := hlongest.isLexeme.lineFeed_notMem
  obtain ⟨b, tail, rfl⟩ := List.exists_cons_of_ne_nil hne
  rw [List.cons_append] at hlongest ⊢
  obtain ⟨hfirst, rfl⟩ := longestAt_iff.mp hlongest
  -- the value fits, so the token has it
  have htoken : (Lexeme.mk kind (b :: tail)).token before.endPos =
      ⟨kind, b :: tail, before.endPos, value⟩ := by
    rw [Lexeme.token, ← Int64.toInt_inj.mp ((Int64.toInt_ofNat_of_lt hn).trans hvalue.symm)]
  have hlimit : ¬ literalLimit ≤ (Lexeme.mk kind (b :: tail)).value := Nat.not_le.mpr hn
  rw [scanFrom, if_neg (by simp [hlongest.isBlank_eq_false]), hfirst]
  dsimp only
  rw [if_neg hlimit, htoken, Text.endPos_append before hlf, List.length_cons, Nat.add_sub_cancel,
    List.drop_left]

/-- Scanning goes over pieces. -/
lemma scanFrom_pieces {pieces : List Piece} (h : Piece.Decompose before pieces rest) :
    scanFrom before.endPos (pieces.flatMap Piece.text ++ rest) =
      (scanFrom (before ++ pieces.flatMap Piece.text).endPos rest).map
        (pieces.map Piece.token ++ ·) := by
  induction pieces generalizing before with
  | nil =>
      rw [List.flatMap_nil, List.nil_append, List.append_nil]
      cases scanFrom before.endPos rest <;> rfl
  | cons p pieces ih =>
      obtain ⟨hp, hpieces⟩ := h
      have htext : (p :: pieces).flatMap Piece.text ++ rest =
          p.blanks ++ (p.token.lexeme ++ (pieces.flatMap Piece.text ++ rest)) := by
        simp [Piece.text]
      have hbefore : before ++ (p :: pieces).flatMap Piece.text =
          before ++ p.text ++ pieces.flatMap Piece.text := by simp
      rw [htext, hbefore, scanFrom_blanks p.isBlank_of_mem, scanFrom_token hp, List.append_assoc,
        ← Piece.text, ih hpieces]
      cases scanFrom (before ++ p.text ++ pieces.flatMap Piece.text).endPos rest <;> rfl

/-- Scanning goes over pieces and the blanks behind them. -/
lemma scan_append {pieces : List Piece} (h : Piece.Decompose [] pieces (blanks ++ rest))
    (hblanks : ∀ b ∈ blanks, Text.isBlank b) :
    scan (pieces.flatMap Piece.text ++ blanks ++ rest) =
      (scanFrom (Text.endPos (pieces.flatMap Piece.text ++ blanks)) rest).map
        (pieces.map Piece.token ++ ·) := by
  rw [scan, ← Text.endPos_nil, List.append_assoc, scanFrom_pieces h, List.nil_append,
    scanFrom_blanks hblanks]

lemma scanFrom_of_stuck {b : UInt8} {cause : LexError.Cause} (h : Stuck rest b cause)
    (pos : Pos) : scanFrom pos rest = .error ⟨b, pos, cause⟩ := by
  cases h with
  | unexpected hblank hno =>
      rw [scanFrom, if_neg (by simp [hblank]), Lexeme.first?_eq_none_iff.mpr hno]
  | outOfRange hlongest hvalue =>
      obtain ⟨hfirst, rfl⟩ := longestAt_iff.mp hlongest
      rw [scanFrom, if_neg (by simp [hlongest.isBlank_eq_false]), hfirst]
      exact if_pos hvalue

end Token

/-! ### Every text is decomposed -/

/-- Only numerals have a value other than zero. -/
lemma IsLexeme.kind_eq_number {kind : Kind} {text : Text} {value : Nat}
    (h : IsLexeme kind text value) (hvalue : value ≠ 0) : kind = .number := by
  cases h with
  | whole | decimal => rfl
  | symbol | fixed => exact absurd rfl hvalue

/-- The token of the lexeme at the start of a text, if its value fits. -/
lemma Lexeme.standsAt_token {l : Lexeme} {before rest : Text} (h : first? rest = some l)
    (hvalue : l.value < literalLimit) : (l.token before.endPos).StandsAt before rest :=
  ⟨(isLexeme_of_first? h).1.ne_nil,
    ⟨l.value, longestAt_iff.mpr ⟨h, rfl⟩, hvalue, Int64.toInt_ofNat_of_lt hvalue⟩, rfl⟩

/-- At a byte that is no blank there is a token, or the decomposition is
stuck. -/
lemma exists_standsAt_or_stuck (before : Text) {b : UInt8} {rest : Text}
    (hb : Text.isBlank b = false) :
    (∃ (token : Token) (tail : Text), b :: rest = token.lexeme ++ tail ∧
      token.StandsAt before (b :: rest)) ∨ ∃ cause, Stuck (b :: rest) b cause := by
  cases hfirst : Lexeme.first? (b :: rest) with
  | none => exact .inr ⟨_, .unexpected hb (Lexeme.first?_eq_none_iff.mp hfirst)⟩
  | some l =>
      obtain ⟨hlexeme, tail, htail⟩ := Lexeme.isLexeme_of_first? hfirst
      rcases Nat.lt_or_ge l.value literalLimit with hvalue | hvalue
      · exact .inl ⟨_, tail, htail.symm, Lexeme.standsAt_token hfirst hvalue⟩
      · obtain ⟨kind, text⟩ := l
        have hpos : 0 < literalLimit := by decide
        obtain rfl : kind = .number := hlexeme.kind_eq_number (by omega)
        exact .inr ⟨_, .outOfRange (longestAt_iff.mpr ⟨hfirst, rfl⟩) hvalue⟩

/-- The blanks at the start of a text. -/
lemma exists_blanks (s : Text) :
    ∃ blanks rest, s = blanks ++ rest ∧ (∀ b ∈ blanks, Text.isBlank b) ∧
      ∀ b ∈ rest.head?, Text.isBlank b = false := by
  refine ⟨s.takeWhile Text.isBlank, s.dropWhile Text.isBlank,
    List.takeWhile_append_dropWhile.symm, fun b hb => List.mem_takeWhile_imp hb, fun b hb => ?_⟩
  simpa [Option.mem_def.mp hb] using List.head?_dropWhile_not Text.isBlank s

/-- **Every text is decomposed** up to its end or up to where it is stuck. -/
lemma exists_pieces (before s : Text) :
    ∃ pieces blanks rest, s = pieces.flatMap Piece.text ++ blanks ++ rest ∧
      Piece.Decompose before pieces (blanks ++ rest) ∧ (∀ b ∈ blanks, Text.isBlank b) ∧
      (rest = [] ∨ ∃ b cause, Stuck rest b cause) := by
  obtain ⟨blanks, rest, hs, hblanks, hrest⟩ := exists_blanks s
  cases rest with
  | nil => exact ⟨[], blanks, [], hs, trivial, hblanks, .inl rfl⟩
  | cons b rest =>
      rcases exists_standsAt_or_stuck (before ++ blanks) (hrest b rfl) with
        ⟨token, tail, htail, htoken⟩ | ⟨cause, hstuck⟩
      · -- what follows the token is shorter
        have hshorter : tail.length < s.length := by
          have hpos := List.length_pos_iff.mpr htoken.ne_nil
          rw [hs, htail, List.length_append, List.length_append]
          omega
        obtain ⟨pieces, blanks', rest', rfl, hpieces, hblanks', hend⟩ :=
          exists_pieces (before ++ (blanks ++ token.lexeme)) tail
        refine ⟨⟨blanks, token, hblanks⟩ :: pieces, blanks', rest', ?_, ⟨?_, hpieces⟩, hblanks',
          hend⟩
        · rw [hs, htail]
          simp [Piece.text]
        · rwa [htail, List.append_assoc] at htoken
      · exact ⟨[], blanks, b :: rest, hs, trivial, hblanks, .inr ⟨b, cause, hstuck⟩⟩
termination_by s.length

/-! ### What scanning gives -/

namespace Token

variable {pieces : List Piece} {blanks rest : Text}

/-- Pieces and blanks up to the end give the tokens of the pieces. -/
lemma scan_eq_ok (hpieces : Piece.Decompose [] pieces blanks)
    (hblanks : ∀ b ∈ blanks, Text.isBlank b) :
    scan (pieces.flatMap Piece.text ++ blanks) = .ok (pieces.map Piece.token ++
      [endAt (Text.endPos (pieces.flatMap Piece.text ++ blanks))]) := by
  rw [← List.append_nil blanks] at hpieces
  have h := scan_append hpieces hblanks
  rw [List.append_nil, scanFrom] at h
  exact h

/-- Pieces and blanks up to where the source is stuck give an error there. -/
lemma scan_eq_error (hpieces : Piece.Decompose [] pieces (blanks ++ rest))
    (hblanks : ∀ b ∈ blanks, Text.isBlank b) {b : UInt8} {cause : LexError.Cause}
    (hstuck : Stuck rest b cause) :
    scan (pieces.flatMap Piece.text ++ blanks ++ rest) =
      .error ⟨b, Text.endPos (pieces.flatMap Piece.text ++ blanks), cause⟩ := by
  rw [scan_append hpieces hblanks, scanFrom_of_stuck hstuck]
  rfl

/-- **Scanning takes the longest lexeme, from left to right.** It gives tokens
exactly when the source is pieces up to blanks at its end, and then these tokens
and one end token behind the source. It fails exactly when the pieces lead to a
byte where it is stuck, and the error names this byte and its place. A scan by
offsets does the same and reads nothing outside of the source. -/
theorem scan_leftmost_longest (source : Text) :
    (∀ tokens, scan source = .ok tokens ↔
      ∃ pieces blanks, source = pieces.flatMap Piece.text ++ blanks ∧
        Piece.Decompose [] pieces blanks ∧ (∀ b ∈ blanks, Text.isBlank b) ∧
        tokens = pieces.map Piece.token ++ [endAt source.endPos]) ∧
      (∀ e, scan source = .error e ↔
        ∃ pieces blanks rest, source = pieces.flatMap Piece.text ++ blanks ++ rest ∧
          Piece.Decompose [] pieces (blanks ++ rest) ∧ (∀ b ∈ blanks, Text.isBlank b) ∧
          Stuck rest e.char e.cause ∧
          e.pos = Text.endPos (pieces.flatMap Piece.text ++ blanks)) ∧
      Cursor.start.scan? source = some (scan source) := by
  obtain ⟨pieces, blanks, rest, hsource, hpieces, hblanks, hend⟩ := exists_pieces [] source
  refine ⟨fun tokens => ⟨fun h => ?_, ?_⟩, fun e => ⟨fun h => ?_, ?_⟩,
    Cursor.at_start.scan?_eq rfl⟩
  · rcases hend with rfl | ⟨b, cause, hstuck⟩
    · rw [List.append_nil] at hsource hpieces
      subst hsource
      rw [scan_eq_ok hpieces hblanks] at h
      exact ⟨pieces, blanks, rfl, hpieces, hblanks, (Except.ok.inj h).symm⟩
    · rw [hsource, scan_eq_error hpieces hblanks hstuck] at h
      cases h
  · rintro ⟨pieces, blanks, rfl, hpieces, hblanks, rfl⟩
    exact scan_eq_ok hpieces hblanks
  · rcases hend with rfl | ⟨b, cause, hstuck⟩
    · rw [List.append_nil] at hsource hpieces
      rw [hsource, scan_eq_ok hpieces hblanks] at h
      cases h
    · rw [hsource, scan_eq_error hpieces hblanks hstuck] at h
      cases h
      exact ⟨pieces, blanks, rest, hsource, hpieces, hblanks, hstuck, rfl⟩
  · obtain ⟨char, pos, cause⟩ := e
    rintro ⟨pieces, blanks, rest, rfl, hpieces, hblanks, hstuck, rfl⟩
    exact scan_eq_error hpieces hblanks hstuck

end Token

end FlatClosure
