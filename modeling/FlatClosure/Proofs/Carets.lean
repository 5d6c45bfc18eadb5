/-
Excerpts at the places that scanning reports.

Scanning counts the bytes of a source and breaks its lines at line feeds only. An
excerpt drops the carriage returns in front of line feeds and cuts what is left into
lines. At the places of tokens and of scanning errors both agree.

* `Text.linesRec`: induction over a text line by line.
* `Text.LineAt`: a line as a part of a source; `Text.shown`, `Text.ShowsLine`: what an
  excerpt shows of it.
* `Text.getElem?_lines_dropReturns_iff`: the lines of an excerpt are those of the source.
* `PointsAt`: an excerpt with its caret below a column of a line;
  `pointsAt_of_getElem?_lines`: an excerpt at a column inside a line is of this form.
* `exists_pointsAt_byte`, `exists_pointsAt_end`: places at a byte that is no blank, and
  behind the source.
* `Token.scan_points_at`: the places of tokens and of errors.
-/
import FlatClosure.Excerpt
import FlatClosure.Proofs.Scanning

namespace FlatClosure

/-! ### Lines -/

namespace Text

/-- Induction over a text line by line. -/
@[elab_as_elim]
theorem linesRec {P : Text → Prop} (last : ∀ line, 10 ∉ line → P line)
    (cons : ∀ line rest, 10 ∉ line → P rest → P (line ++ 10 :: rest)) (t : Text) : P t := by
  -- of the line in which the text continues, a part may have been read
  suffices h : ∀ line, 10 ∉ line → P (line ++ t) from h [] List.not_mem_nil
  induction t with
  | nil =>
      intro line hline
      rw [List.append_nil]
      exact last line hline
  | cons b t ih =>
      intro line hline
      by_cases hb : b = 10
      · rw [hb]
        exact cons line t hline (ih [] List.not_mem_nil)
      · rw [List.append_cons]
        exact ih (line ++ [b]) (by simp [hline, Ne.symm hb])

lemma lines_of_notMem {line : Text} (h : 10 ∉ line) : line.lines = [line] := splitOn_of_notMem h

lemma lines_append_lineFeed {line : Text} (h : 10 ∉ line) (rest : Text) :
    lines (line ++ 10 :: rest) = line :: rest.lines := by
  rw [lines, splitOn_append_cons, splitOn_of_notMem h, List.singleton_append, ← lines]

/-! ### Carriage returns -/

/-- What is shown of a line in front of `back`: at a line feed, a carriage return
belongs to the ending of the line. -/
def shown (line back : Text) : Text :=
  if back.head? = some 10 ∧ line.getLast? = some 13 then line.dropLast else line

lemma shown_nil (line : Text) : shown line [] = line := if_neg fun h => by simp at h

/-- What stands in front of a text that begins with no line feed stays. -/
lemma dropReturns_append {line rest : Text} (h : 10 ∉ line) (hrest : rest.head? ≠ some 10) :
    dropReturns (line ++ rest) = line ++ dropReturns rest := by
  induction line with
  | nil => rfl
  | cons b line ih =>
      obtain ⟨-, hline⟩ := not_or.mp (mt List.mem_cons.mpr h)
      have hnext : ∀ tail, line ++ rest ≠ 10 :: tail := by
        intro tail heq
        cases line with
        | nil => exact hrest (congrArg List.head? heq)
        | cons c line => exact hline (List.head_eq_of_cons_eq heq ▸ List.mem_cons_self)
      rw [List.cons_append, List.cons_append, dropReturns, ih hline]
      exact fun tail _ => hnext tail

lemma dropReturns_of_notMem {line : Text} (h : 10 ∉ line) : dropReturns line = line := by
  have happend : dropReturns (line ++ []) = line ++ dropReturns [] :=
    dropReturns_append h (by simp)
  rwa [List.append_nil, dropReturns, List.append_nil] at happend

lemma dropReturns_append_lineFeed {line : Text} (h : 10 ∉ line) (rest : Text) :
    dropReturns (line ++ 10 :: rest) = shown line (10 :: rest) ++ 10 :: dropReturns rest := by
  rcases line.eq_nil_or_concat' with rfl | ⟨line, c, rfl⟩
  · simp [shown, dropReturns]
  · have hline : 10 ∉ line := fun hmem => h (List.mem_append_left _ hmem)
    have hc : c ≠ 10 := fun hc => h (by simp [hc])
    rw [List.append_assoc, List.singleton_append, dropReturns_append hline (by simpa using hc)]
    by_cases hreturn : c = 13
    · simp [shown, hreturn, dropReturns]
    · simp [shown, hreturn, dropReturns]

lemma notMem_shown {line : Text} (h : 10 ∉ line) (back : Text) : 10 ∉ shown line back := by
  rw [shown]
  split_ifs
  · exact fun hmem => h (line.dropLast_subset hmem)
  · exact h

lemma lines_dropReturns_of_notMem {line : Text} (h : 10 ∉ line) :
    (dropReturns line).lines = [line] := by
  rw [dropReturns_of_notMem h, lines_of_notMem h]

lemma lines_dropReturns_append {line : Text} (h : 10 ∉ line) (rest : Text) :
    (dropReturns (line ++ 10 :: rest)).lines =
      shown line (10 :: rest) :: (dropReturns rest).lines := by
  rw [dropReturns_append_lineFeed h, lines_append_lineFeed (notMem_shown h _)]

/-! ### Lines as parts of a source -/

/-- A line of a source, between what stands in front of it and what follows. -/
structure LineAt (source front line back : Text) : Prop where
  source_eq : source = front ++ (line ++ back)
  begins : front = [] ∨ front.getLast? = some 10
  unbroken : 10 ∉ line
  ends : back = [] ∨ back.head? = some 10

/-- A text is what is shown of the line of a source with this number, counted from
one. -/
def ShowsLine (source : Text) (number : Int) (text : Text) : Prop :=
  ∃ front line back, LineAt source front line back ∧ number = front.count 10 + 1 ∧
    text = shown line back

/-- A text ends in a line feed behind another one if it is empty or does so itself. -/
lemma getLast?_append_lineFeed {first front : Text} :
    (first ++ 10 :: front).getLast? = some 10 ↔ front = [] ∨ front.getLast? = some 10 := by
  rcases front.eq_nil_or_concat' with rfl | ⟨front, c, rfl⟩
  · simp
  · simp [List.getLast?_append, List.getLast?_cons]

/-- **A line of the source is the line of the excerpt with the same number**, as far as
it is shown. -/
lemma LineAt.getElem?_lines {source front line back : Text} (h : LineAt source front line back) :
    (dropReturns source).lines[front.count 10]? = some (shown line back) := by
  induction front using linesRec generalizing source with
  | last front hfront =>
      -- without a line feed nothing stands in front
      have hnil : front = [] :=
        h.begins.resolve_right fun hlast => hfront (List.mem_of_getLast? hlast)
      rw [h.source_eq, hnil, List.nil_append, List.count_nil]
      rcases h.ends with rfl | hback
      · rw [List.append_nil, lines_dropReturns_of_notMem h.unbroken, shown_nil]
        rfl
      · obtain ⟨rest, rfl⟩ := List.head?_eq_some_iff.mp hback
        rw [lines_dropReturns_append h.unbroken]
        rfl
  | cons first front hfirst ih =>
      have hbegins := getLast?_append_lineFeed.mp (h.begins.resolve_left (by simp))
      have hline := ih ⟨rfl, hbegins, h.unbroken, h.ends⟩
      rw [h.source_eq, List.append_assoc, List.cons_append, lines_dropReturns_append hfirst,
        List.count_append, List.count_eq_zero.mpr hfirst, Nat.zero_add, List.count_cons_self,
        List.getElem?_cons_succ]
      exact hline

/-- Every line of an excerpt is one of the source. -/
lemma exists_lineAt_of_getElem?_lines {source text : Text} {n : Nat}
    (h : (dropReturns source).lines[n]? = some text) :
    ∃ front line back, LineAt source front line back ∧ n = front.count 10 ∧
      text = shown line back := by
  induction source using linesRec generalizing n with
  | last line hline =>
      rw [lines_dropReturns_of_notMem hline] at h
      obtain ⟨rfl, rfl⟩ : n = 0 ∧ line = text := by simpa [List.getElem?_singleton] using h
      exact ⟨[], line, [], ⟨by simp, .inl rfl, hline, .inl rfl⟩, rfl, (shown_nil line).symm⟩
  | cons first rest hfirst ih =>
      rw [lines_dropReturns_append hfirst] at h
      cases n with
      | zero =>
          refine ⟨[], first, 10 :: rest, ⟨rfl, .inl rfl, hfirst, .inr rfl⟩, rfl, ?_⟩
          exact (Option.some.inj h).symm
      | succ n =>
          obtain ⟨front, line, back, hline, rfl, htext⟩ := ih h
          refine ⟨first ++ 10 :: front, line, back,
            ⟨by simp [hline.source_eq], .inr (getLast?_append_lineFeed.mpr hline.begins),
              hline.unbroken, hline.ends⟩, ?_, htext⟩
          rw [List.count_append, List.count_eq_zero.mpr hfirst, List.count_cons_self, Nat.zero_add]

lemma getElem?_lines_dropReturns_iff {source text : Text} {n : Nat} :
    (dropReturns source).lines[n]? = some text ↔ ShowsLine source (n + 1) text := by
  constructor
  · intro h
    obtain ⟨front, line, back, hline, rfl, htext⟩ := exists_lineAt_of_getElem?_lines h
    exact ⟨front, line, back, hline, rfl, htext⟩
  · rintro ⟨front, line, back, hline, hnumber, rfl⟩
    obtain rfl : n = front.count 10 := by omega
    exact hline.getElem?_lines

end Text

/-! ### Excerpts -/

/-- The part of an excerpt in front of a line: the line before, if there is one. -/
def ShowsBefore (source : Text) (number : Int) (text : Text) : Prop :=
  if number = 1 then text = []
  else ∃ line, source.ShowsLine (number - 1) line ∧ text = numberedLine (number - 1).toNat line

/-- The part of an excerpt behind a line: the line after, unless it is empty. -/
def ShowsAfter (source : Text) (number : Int) (text : Text) : Prop :=
  (∃ line, line ≠ [] ∧ source.ShowsLine (number + 1) line ∧
    text = numberedLine (number + 1).toNat line) ∨
  text = [] ∧ ∀ line, source.ShowsLine (number + 1) line → line = []

/-- The filler of a text up to a column: a tab where the text has one, and a space
everywhere else. -/
structure FillsUpTo (text : Text) (column : Int) (filler : Text) : Prop where
  length_eq : (filler.length : Int) = column - 1
  tab_iff : ∀ i < filler.length, filler[i]? = some 9 ↔ text[i]? = some 9
  tab_or_space : ∀ b ∈ filler, b = 9 ∨ b = 32

/-- The excerpt of a source at a place inside a line, or one past its end: the line, as
far as it is shown, with its number, below it a caret at the column, and the lines
around. -/
structure PointsAt (source : Text) (pos : Pos) (text : Text) : Prop where
  excerpt_ne_nil : excerpt source pos ≠ []
  showsLine : source.ShowsLine pos.line text
  inside : 1 ≤ pos.column ∧ pos.column ≤ text.length + 1
  excerpt_eq : ∃ before filler after,
    excerpt source pos = before ++ numberedLine pos.line.toNat text ++
      ("\n     | " ++ filler ++ "^") ++ after ∧
    ShowsBefore source pos.line before ∧ FillsUpTo text pos.column filler ∧
    ShowsAfter source pos.line after

lemma clampColumn_of_inside {length : Nat} {column : Int} (hle : 1 ≤ column)
    (hge : column ≤ length + 1) : clampColumn length column = column.toNat := by
  rw [clampColumn, min_eq_left hge, max_eq_right hle]

/-- The caret line at a column inside a line. -/
lemma exists_caretLine_eq {text : Text} {k : Nat} (hk : k ≤ text.length) :
    ∃ filler, caretLine text (k + 1) = "\n     | " ++ filler ++ "^" ∧
      FillsUpTo text (k + 1) filler := by
  refine ⟨_, rfl, ?_, fun i hi => ?_, fun b hb => ?_⟩
  · rw [List.length_map, List.length_take]
    omega
  · rw [List.length_map, List.length_take] at hi
    rw [List.getElem?_map, List.getElem?_take_of_lt (by omega)]
    cases text[i]? with
    | none => simp
    | some b => by_cases hb : b = 9 <;> simp [hb]
  · obtain ⟨c, -, rfl⟩ := List.mem_map.mp hb
    by_cases hc : c = 9 <;> simp [hc]

/-- An excerpt at a line of the source, cut into its parts. -/
lemma excerpt_eq {source text : Text} {n : Nat} (hline : (dropReturns source).lines[n]? = some text)
    (column : Int) :
    ∃ before after, excerpt source ⟨n + 1, column⟩ = before ++ numberedLine (n + 1) text ++
        caretLine text (clampColumn text.length column) ++ after ∧
      ShowsBefore source (n + 1) before ∧ ShowsAfter source (n + 1) after := by
  have hlt : n < (dropReturns source).lines.length := (List.getElem?_eq_some_iff.mp hline).1
  have hnumber : ((n : Int) + 1).toNat = n + 1 := rfl
  rw [excerpt]
  simp only [hnumber, if_pos (show (1 : Int) ≤ n + 1 by omega), Nat.add_sub_cancel, hline]
  refine ⟨_, _, rfl, ?_, ?_⟩
  · cases n with
    | zero => rfl
    | succ n =>
        have hprevious := List.getElem?_eq_getElem (Nat.lt_of_succ_lt hlt)
        have hn : ((n + 1 : Nat) : Int) + 1 - 1 = n + 1 := by omega
        have hindex : n + 1 + 1 - 2 = n := rfl
        rw [ShowsBefore, if_neg (by omega), if_pos (by omega), hn, hindex, hprevious]
        exact ⟨_, Text.getElem?_lines_dropReturns_iff.mp hprevious, rfl⟩
  · have hshows : ∀ next, source.ShowsLine (n + 1 + 1) next ↔
        (dropReturns source).lines[n + 1]? = some next := fun next =>
      Text.getElem?_lines_dropReturns_iff.symm
    unfold ShowsAfter
    simp only [hshows]
    cases (dropReturns source).lines[n + 1]? with
    | none => exact .inr ⟨rfl, fun next h => by cases h⟩
    | some next =>
        cases next with
        | nil => exact .inr ⟨rfl, fun next h => (Option.some.inj h).symm⟩
        | cons b next => exact .inl ⟨b :: next, List.cons_ne_nil b next, rfl, rfl⟩

/-- **An excerpt at a column inside a line points there.** -/
lemma pointsAt_of_getElem?_lines {source text : Text} {n k : Nat}
    (hline : (dropReturns source).lines[n]? = some text) (hk : k ≤ text.length) :
    PointsAt source ⟨n + 1, k + 1⟩ text := by
  have hinside : 1 ≤ (k : Int) + 1 ∧ (k : Int) + 1 ≤ text.length + 1 := by omega
  obtain ⟨before, after, heq, hbefore, hafter⟩ := excerpt_eq hline (k + 1)
  obtain ⟨filler, hcaret, hfiller⟩ := exists_caretLine_eq hk
  have hcolumn : clampColumn text.length (k + 1) = k + 1 :=
    clampColumn_of_inside hinside.1 hinside.2
  rw [hcolumn, hcaret] at heq
  have hmark : Text.ofString "^" ≠ [] := by decide
  have hne : excerpt source ⟨n + 1, k + 1⟩ ≠ [] := by simp [heq, hmark]
  exact ⟨hne, Text.getElem?_lines_dropReturns_iff.mp hline, hinside, before, filler, after, heq,
    hbefore, hfiller, hafter⟩

/-! ### Places in a source -/

namespace Text

/-- Behind the start of a line, the column counts the bytes. -/
lemma endPos_append_of_begins {front start : Text} (hbegins : front = [] ∨ front.getLast? = some 10)
    (hstart : 10 ∉ start) :
    endPos (front ++ start) = ⟨front.count 10 + 1, start.length + 1⟩ := by
  have hfront : front.endPos = ⟨front.count 10 + 1, 1⟩ := by
    rcases hbegins with rfl | hlast
    · rfl
    · obtain ⟨init, rfl⟩ := List.getLast?_eq_some_iff.mp hlast
      simp [endPos]
  rw [endPos_append front hstart, hfront, Pos.shift, Pos.mk.injEq]
  exact ⟨rfl, Int.add_comm _ _⟩

/-- The start of the line that a text ends in. -/
lemma exists_start (before : Text) :
    ∃ front start, before = front ++ start ∧ (front = [] ∨ front.getLast? = some 10) ∧
      10 ∉ start := by
  induction before using linesRec with
  | last line hline => exact ⟨[], line, rfl, .inl rfl, hline⟩
  | cons line rest _ ih =>
      obtain ⟨front, start, rfl, hbegins, hstart⟩ := ih
      refine ⟨line ++ 10 :: front, start, by simp, .inr ?_, hstart⟩
      exact getLast?_append_lineFeed.mpr hbegins

/-- The end of the line that a text begins in. -/
lemma exists_tail (rest : Text) :
    ∃ tail back, rest = tail ++ back ∧ 10 ∉ tail ∧ (back = [] ∨ back.head? = some 10) := by
  induction rest using linesRec with
  | last line hline => exact ⟨line, [], (List.append_nil line).symm, hline, .inl rfl⟩
  | cons line rest hline _ => exact ⟨line, 10 :: rest, rfl, hline, .inr rfl⟩

/-- Every place in a source is in one of its lines. -/
lemma exists_lineAt (before rest : Text) :
    ∃ front start tail back, LineAt (before ++ rest) front (start ++ tail) back ∧
      rest = tail ++ back ∧ before.endPos = ⟨front.count 10 + 1, start.length + 1⟩ := by
  obtain ⟨front, start, rfl, hbegins, hstart⟩ := exists_start before
  obtain ⟨tail, back, rfl, htail, hends⟩ := exists_tail rest
  exact ⟨front, start, tail, back, ⟨by simp, hbegins, by simp [hstart, htail], hends⟩, rfl,
    endPos_append_of_begins hbegins hstart⟩

/-- A byte that is no carriage return is shown. -/
lemma exists_shown_eq {b : UInt8} (hb : b ≠ 13) (start tail back : Text) :
    ∃ rest, shown (start ++ b :: tail) back = start ++ b :: rest := by
  rw [shown]
  split_ifs with h
  · rcases tail.eq_nil_or_concat' with rfl | ⟨tail, c, rfl⟩
    · exact absurd h.2 (by simpa using hb)
    · exact ⟨tail, by rw [← List.cons_append, ← List.append_assoc, List.dropLast_concat]⟩
  · exact ⟨tail, rfl⟩

end Text

/-- **The excerpt at a byte that is no blank points at this byte.** -/
lemma exists_pointsAt_byte (before rest : Text) {b : UInt8} (hb : Text.isBlank b = false) :
    ∃ text, PointsAt (before ++ b :: rest) before.endPos text ∧
      text[(before.endPos.column - 1).toNat]? = some b := by
  obtain ⟨front, start, tail, back, hline, hrest, hpos⟩ := Text.exists_lineAt before (b :: rest)
  have hlineFeed : b ≠ 10 := by
    rintro rfl
    exact absurd hb (by decide)
  have hreturn : b ≠ 13 := by
    rintro rfl
    exact absurd hb (by decide)
  cases tail with
  | nil =>
      -- a line that ends in front of the byte ends at a line feed
      rw [List.nil_append] at hrest
      have hhead := hline.ends.resolve_left (by simp [← hrest])
      rw [← hrest] at hhead
      exact absurd (Option.some.inj hhead) hlineFeed
  | cons c tail =>
      obtain rfl : b = c := List.head_eq_of_cons_eq hrest
      obtain ⟨shownRest, hshown⟩ := Text.exists_shown_eq hreturn start tail back
      have hlines := hline.getElem?_lines
      rw [hshown] at hlines
      refine ⟨start ++ b :: shownRest, ?_, ?_⟩
      · rw [hpos]
        exact pointsAt_of_getElem?_lines hlines (by simp)
      · rw [hpos]
        simp

/-- **The excerpt behind a source points one past the end of its last line.** -/
lemma exists_pointsAt_end (source : Text) :
    ∃ text, PointsAt source source.endPos text ∧ source.endPos.column = text.length + 1 := by
  obtain ⟨front, start, tail, back, hline, hrest, hpos⟩ := Text.exists_lineAt source []
  obtain ⟨rfl, rfl⟩ := List.append_eq_nil_iff.mp hrest.symm
  have hlines := hline.getElem?_lines
  rw [List.append_nil, List.append_nil, Text.shown_nil] at hlines
  refine ⟨start, ?_, ?_⟩
  · rw [hpos]
    exact pointsAt_of_getElem?_lines hlines (Nat.le_refl _)
  · rw [hpos]

/-! ### Places that scanning reports -/

lemma IsLexeme.kind_ne_eof {kind : Kind} {text : Text} {value : Nat}
    (h : IsLexeme kind text value) : kind ≠ .eof := by
  cases h with
  | whole | decimal | symbol => simp
  | fixed hmem =>
      rintro rfl
      simp [fixedLexemes] at hmem

/-- The token of a piece stands in the source. -/
lemma Piece.Decompose.exists_standsAt {before rest : Text} {pieces : List Piece}
    (h : Decompose before pieces rest) {p : Piece} (hp : p ∈ pieces) :
    ∃ front back, before ++ (pieces.flatMap text ++ rest) = front ++ (p.token.lexeme ++ back) ∧
      p.token.StandsAt front (p.token.lexeme ++ back) := by
  induction pieces generalizing before with
  | nil => exact absurd hp List.not_mem_nil
  | cons first pieces ih =>
      obtain ⟨hfirst, hpieces⟩ := h
      rcases List.mem_cons.mp hp with rfl | hp
      · exact ⟨_, _, by simp [text], hfirst⟩
      · obtain ⟨front, back, heq, hstands⟩ := ih hpieces hp
        refine ⟨front, back, ?_, hstands⟩
        rw [← heq, List.flatMap_cons, List.append_assoc, List.append_assoc]

/-- The excerpt at a token points at the first byte of its lexeme. -/
lemma Token.StandsAt.exists_pointsAt {token : Token} {before rest : Text}
    (h : token.StandsAt before (token.lexeme ++ rest)) :
    ∃ text b, PointsAt (before ++ (token.lexeme ++ rest)) token.pos text ∧
      token.lexeme.head? = some b ∧ text[(token.pos.column - 1).toNat]? = some b := by
  obtain ⟨value, hlongest, -⟩ := h.longest
  obtain ⟨b, tail, hlexeme⟩ := List.exists_cons_of_ne_nil h.ne_nil
  have hb : Text.isBlank b = false :=
    hlongest.isLexeme.isBlank_eq_false_of_mem (hlexeme ▸ List.mem_cons_self)
  obtain ⟨text, hpoints, hbyte⟩ := exists_pointsAt_byte before (tail ++ rest) hb
  rw [hlexeme, h.pos_eq]
  exact ⟨text, b, hpoints, rfl, hbyte⟩

lemma Stuck.exists_eq_cons {rest : Text} {b : UInt8} {cause : LexError.Cause}
    (h : Stuck rest b cause) : Text.isBlank b = false ∧ ∃ tail, rest = b :: tail := by
  cases h with
  | unexpected hblank => exact ⟨hblank, _, rfl⟩
  | outOfRange hlongest => exact ⟨hlongest.isBlank_eq_false, _, rfl⟩

/-- **Excerpts at the places of tokens and of scanning errors** show the line of the
place, with the caret below the first byte of the lexeme, below the byte at which
scanning fails, or for the end token one past the end of the last line. -/
theorem Token.scan_points_at (source : Text) :
    (∀ tokens, scan source = .ok tokens → ∀ token ∈ tokens, ∃ text,
      PointsAt source token.pos text ∧
        if token.kind = .eof then
          token.pos.line = source.count 10 + 1 ∧ token.pos.column = text.length + 1
        else
          ∃ b, token.lexeme.head? = some b ∧ text[(token.pos.column - 1).toNat]? = some b) ∧
      ∀ e, scan source = .error e → ∃ text, PointsAt source e.pos text ∧
        text[(e.pos.column - 1).toNat]? = some e.char := by
  obtain ⟨pieces, blanks, rest, hsource, hpieces, hblanks, hend⟩ := exists_pieces [] source
  rcases hend with rfl | ⟨b, cause, hstuck⟩
  · rw [List.append_nil] at hsource hpieces
    have hscan := scan_eq_ok hpieces hblanks
    rw [← hsource] at hscan
    rw [hscan]
    refine ⟨fun tokens htokens token htoken => ?_, nofun⟩
    cases htokens
    rcases List.mem_append.mp htoken with hmem | hmem
    · obtain ⟨p, hp, rfl⟩ := List.mem_map.mp hmem
      obtain ⟨front, back, heq, hstands⟩ := hpieces.exists_standsAt hp
      obtain ⟨value, hlongest, -⟩ := hstands.longest
      obtain ⟨text, b, hpoints, hbyte⟩ := hstands.exists_pointsAt
      rw [← heq, List.nil_append, ← hsource] at hpoints
      refine ⟨text, hpoints, ?_⟩
      rw [if_neg hlongest.isLexeme.kind_ne_eof]
      exact ⟨b, hbyte⟩
    · obtain rfl := List.mem_singleton.mp hmem
      obtain ⟨text, hpoints, hcolumn⟩ := exists_pointsAt_end source
      exact ⟨text, hpoints, rfl, hcolumn⟩
  · have hscan := scan_eq_error hpieces hblanks hstuck
    obtain ⟨hb, tail, rfl⟩ := hstuck.exists_eq_cons
    rw [← hsource] at hscan
    rw [hscan]
    refine ⟨nofun, fun e he => ?_⟩
    cases he
    rw [hsource]
    exact exists_pointsAt_byte _ tail hb

/-- A tab and two kinds of line endings, with a carriage return inside a line. -/
theorem Token.scan_points_at_mixed :
    (∃ text, PointsAt "x\r\n\ty" ⟨2, 2⟩ text ∧ text[1]? = some 121) ∧
      ∃ text, PointsAt "x\n\t1\r $\r\n" ⟨2, 5⟩ text ∧ text[4]? = some 36 := by
  constructor
  · have hscan : scan "x\r\n\ty" =
        .ok [⟨.symbol, "x", ⟨1, 1⟩, 0⟩, ⟨.symbol, "y", ⟨2, 2⟩, 0⟩, endAt ⟨2, 3⟩] := by
      decide +kernel
    obtain ⟨text, hpoints, b, hb, hbyte⟩ :=
      (scan_points_at "x\r\n\ty").1 _ hscan ⟨.symbol, "y", ⟨2, 2⟩, 0⟩ (by simp)
    cases hb
    exact ⟨text, hpoints, hbyte⟩
  · have hscan : scan "x\n\t1\r $\r\n" = .error ⟨36, ⟨2, 5⟩, .unexpected⟩ := by decide +kernel
    exact (scan_points_at "x\n\t1\r $\r\n").2 _ hscan

end FlatClosure
