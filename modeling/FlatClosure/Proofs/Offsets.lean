/-
Scanning by offsets.

The scan of a source that is read at offsets: a cursor holds the offset of the
next byte, the line and the offset where the line starts. A read or a slice
outside of the source has no result, and neither has a scan that makes one.

* `Text.endPos`: the place behind a text, by the line feeds in it.
* `Text.peek?`, `Text.slice?`, `Text.skipWhile?`: reads of a source.
* `Cursor.step?`, `Cursor.scan?`: one step and the whole scan.
* `Cursor.At`: the cursor stands behind a part of the source.
* `Cursor.At.takes_step`: one step takes the lexeme at the cursor.
* `Cursor.At.scan?_eq`: no read is outside of the source, and the tokens are those
  of the scan.
-/
import FlatClosure.Proofs.LexicalGrammar

namespace FlatClosure

/-! ### Places -/

namespace Text

/-- The place behind a text: its line is one more than the number of line feeds
in the text, its column one more than the number of bytes behind the last of
them. -/
def endPos (t : Text) : Pos :=
  ⟨t.count 10 + 1, (t.reverse.takeWhile (· ≠ 10)).length + 1⟩

lemma endPos_nil : endPos [] = Pos.start := rfl

lemma endPos_concat (t : Text) (b : UInt8) : endPos (t ++ [b]) = t.endPos.after b := by
  by_cases hb : b = 10
  · simp [endPos, Pos.after, hb]
  · simp [endPos, Pos.after, hb]

/-- Without line feeds only the column changes. -/
lemma endPos_append (t : Text) {s : Text} (hs : 10 ∉ s) :
    endPos (t ++ s) = t.endPos.shift s.length := by
  have hcount : s.count 10 = 0 := List.count_eq_zero.mpr hs
  have hrun : ∀ b ∈ s.reverse, decide (b ≠ 10) = true := by
    intro b hb
    simp only [ne_eq, decide_eq_true_eq]
    rintro rfl
    exact hs (List.mem_reverse.mp hb)
  rw [endPos, List.count_append, List.reverse_append, List.takeWhile_append_of_pos hrun, hcount]
  simp only [endPos, Pos.shift, Pos.mk.injEq, List.length_append, List.length_reverse]
  omega

end Text

/-! ### Reads -/

namespace Text

/-- The byte at an offset, and zero from the end of the source on. -/
def peek? (source : Text) (i : Nat) : Option UInt8 :=
  if source.length ≤ i then some 0 else source[i]?

/-- The bytes from one offset up to another. -/
def slice? (source : Text) (start stop : Nat) : Option Text :=
  if start ≤ stop ∧ stop ≤ source.length then some ((source.take stop).drop start) else none

/-- The offset behind a run of bytes of a class: each byte is looked at first and
then read. -/
def skipWhile? (p : UInt8 → Bool) (source : Text) (i : Nat) : Option Nat :=
  match source.peek? i with
  | none => none
  | some b =>
    if p b then
      match _h : source[i]? with
      | none => none
      | some _ => skipWhile? p source (i + 1)
    else some i
termination_by source.length - i
decreasing_by
  have hi := (List.getElem?_eq_some_iff.mp _h).1
  omega

end Text

/-! ### Cursors -/

/-- A place in a source, by offsets. -/
structure Cursor where
  offset : Nat
  line : Nat
  /-- The offset of the first byte of the line. -/
  lineStart : Nat

namespace Cursor

open Text

/-- The first byte of a source. -/
def start : Cursor := ⟨0, 1, 0⟩

/-- The line and the column of a cursor. -/
def pos (c : Cursor) : Pos := ⟨c.line, c.offset - c.lineStart + 1⟩

/-- The token of the bytes up to an offset, and the cursor there. -/
def emit? (source : Text) (c : Cursor) (kind : Kind) (stop : Nat) (value : Nat) :
    Option (Cursor × List Token) := do
  let lexeme ← source.slice? c.offset stop
  return (⟨stop, c.line, c.lineStart⟩, [⟨kind, lexeme, c.pos, Int64.ofNat value⟩])

/-- The offset behind the dot and the digits that may follow a run of digits. -/
def fractionEnd? (source : Text) (i : Nat) : Option Nat := do
  if (← source.peek? i) = 46 then
    if isDigit (← source.peek? (i + 1)) then
      let _ ← source[i]?
      source.skipWhile? isDigit (i + 1)
    else return i
  else return i

/-- The numeral at a digit: only the digits before a dot make its value. -/
def number? (source : Text) (c : Cursor) : Option (Except LexError (Cursor × List Token)) := do
  let whole ← source.skipWhile? isDigit (c.offset + 1)
  let stop ← fractionEnd? source whole
  let digits ← source.slice? c.offset whole
  if literalLimit ≤ decimalValue digits then
    let b ← source[c.offset]?
    let numeral ← source.slice? c.offset stop
    return .error ⟨b, c.pos, .outOfRange numeral⟩
  else return .ok (← c.emit? source .number stop (decimalValue digits))

/-- The word at a letter. -/
def word? (source : Text) (c : Cursor) : Option (Cursor × List Token) := do
  let stop ← source.skipWhile? isWordByte (c.offset + 1)
  let word ← source.slice? c.offset stop
  c.emit? source (Lexeme.wordKind word) stop 0

/-- The equality sign, or the arrow that starts with one. -/
def sign? (source : Text) (c : Cursor) : Option (Cursor × List Token) := do
  if (← source.peek? (c.offset + 1)) = 62 then
    let _ ← source[c.offset + 1]?
    c.emit? source .arrow (c.offset + 2) 0
  else c.emit? source .equal (c.offset + 1) 0

/-- One step reads a byte and goes over it or over the lexeme that it starts. -/
def step? (source : Text) (c : Cursor) : Option (Except LexError (Cursor × List Token)) := do
  match ← source[c.offset]? with
  | 40 => return .ok (← c.emit? source .leftParen (c.offset + 1) 0)
  | 41 => return .ok (← c.emit? source .rightParen (c.offset + 1) 0)
  | 44 => return .ok (← c.emit? source .comma (c.offset + 1) 0)
  | 59 => return .ok (← c.emit? source .semicolon (c.offset + 1) 0)
  | 61 => return .ok (← c.sign? source)
  | 10 => return .ok (⟨c.offset + 1, c.line + 1, c.offset + 1⟩, [])
  | b =>
    if isBlank b then return .ok (⟨c.offset + 1, c.line, c.lineStart⟩, [])
    else if isDigit b then c.number? source
    else if isLetter b then return .ok (← c.word? source)
    else return .error ⟨b, c.pos, .unexpected⟩

/-! ### A step goes forward -/

variable {source : Text} {c next : Cursor} {tokens : List Token}

lemma le_of_skipWhile? {p : UInt8 → Bool} {i j : Nat} (h : source.skipWhile? p i = some j) :
    i ≤ j := by
  fun_induction skipWhile? p source i with
  | case1 i hpeek => cases h
  | case2 i b hpeek hb hread => cases h
  | case3 i b hpeek hb c hread ih => exact Nat.le_of_succ_le (ih h)
  | case4 i b hpeek hb => exact (Option.some.inj h).le

lemma le_of_fractionEnd? {i j : Nat} (h : fractionEnd? source i = some j) : i ≤ j := by
  obtain ⟨dot, -, h⟩ := Option.bind_eq_some_iff.mp h
  split_ifs at h
  · obtain ⟨digit, -, h⟩ := Option.bind_eq_some_iff.mp h
    split_ifs at h
    · obtain ⟨_, -, h⟩ := Option.bind_eq_some_iff.mp h
      exact Nat.le_of_succ_le (le_of_skipWhile? h)
    · exact (Option.some.inj h).le
  · exact (Option.some.inj h).le

lemma offset_of_emit? {kind : Kind} {stop value : Nat}
    (h : c.emit? source kind stop value = some (next, tokens)) : next.offset = stop := by
  obtain ⟨lexeme, -, h⟩ := Option.bind_eq_some_iff.mp h
  cases h
  rfl

lemma lt_of_word? (h : c.word? source = some (next, tokens)) : c.offset < next.offset := by
  obtain ⟨stop, hstop, h⟩ := Option.bind_eq_some_iff.mp h
  obtain ⟨word, -, h⟩ := Option.bind_eq_some_iff.mp h
  rw [offset_of_emit? h]
  exact le_of_skipWhile? hstop

lemma lt_of_sign? (h : c.sign? source = some (next, tokens)) : c.offset < next.offset := by
  obtain ⟨b, -, h⟩ := Option.bind_eq_some_iff.mp h
  split_ifs at h
  · obtain ⟨_, -, h⟩ := Option.bind_eq_some_iff.mp h
    rw [offset_of_emit? h]
    omega
  · rw [offset_of_emit? h]
    omega

lemma lt_of_number? (h : c.number? source = some (.ok (next, tokens))) :
    c.offset < next.offset := by
  obtain ⟨whole, hwhole, h⟩ := Option.bind_eq_some_iff.mp h
  obtain ⟨stop, hstop, h⟩ := Option.bind_eq_some_iff.mp h
  obtain ⟨digits, -, h⟩ := Option.bind_eq_some_iff.mp h
  split_ifs at h
  · obtain ⟨b, -, h⟩ := Option.bind_eq_some_iff.mp h
    obtain ⟨numeral, -, h⟩ := Option.bind_eq_some_iff.mp h
    cases h
  · obtain ⟨_, hemit, h⟩ := Option.bind_eq_some_iff.mp h
    cases h
    rw [offset_of_emit? hemit]
    exact le_trans (le_of_skipWhile? hwhole) (le_of_fractionEnd? hstop)

/-- A step goes at least one byte forward. -/
lemma lt_of_step? (h : c.step? source = some (.ok (next, tokens))) : c.offset < next.offset := by
  obtain ⟨b, -, h⟩ := Option.bind_eq_some_iff.mp h
  split at h
  case h_5 =>
    obtain ⟨_, hsign, h⟩ := Option.bind_eq_some_iff.mp h
    cases h
    exact lt_of_sign? hsign
  case h_6 =>
    cases h
    exact Nat.lt_succ_self _
  case h_7 =>
    split_ifs at h
    · cases h
      exact Nat.lt_succ_self _
    · exact lt_of_number? h
    · obtain ⟨_, hword, h⟩ := Option.bind_eq_some_iff.mp h
      cases h
      exact lt_of_word? hword
    · cases h
  -- the punctuation marks of one byte
  all_goals
    obtain ⟨_, hemit, h⟩ := Option.bind_eq_some_iff.mp h
    cases h
    rw [offset_of_emit? hemit]
    exact Nat.lt_succ_self _

/-- The scan of a source from a cursor on: steps up to the end of the source and
then the end token. -/
def scan? (source : Text) (c : Cursor) : Option (Except LexError (List Token)) :=
  if source.length ≤ c.offset then do
    let (_, tokens) ← c.emit? source .eof c.offset 0
    return .ok tokens
  else
    match _h : c.step? source with
    | none => none
    | some (.error e) => some (.error e)
    | some (.ok (next, tokens)) => (next.scan? source).map (Except.map (tokens ++ ·))
termination_by source.length - c.offset
decreasing_by
  have hnext := lt_of_step? _h
  omega

end Cursor

/-! ### Reads inside of a source -/

namespace Text

variable {before rest : Text} {source : Text} {i : Nat}

lemma peek?_eq (hsource : source = before ++ rest) (hi : i = before.length) :
    source.peek? i = some (rest.headD 0) := by
  subst hsource hi
  cases rest with
  | nil => simp [peek?]
  | cons b rest => simp [peek?]

lemma slice?_eq {text : Text} (hsource : source = before ++ (text ++ rest)) :
    source.slice? before.length (before.length + text.length) = some text := by
  subst hsource
  rw [slice?, if_pos (by simp), ← List.append_assoc, ← List.length_append, List.take_left,
    List.drop_left]

/-- A zero byte that stops the run stops it at the end of the source. -/
lemma skipWhile?_eq {p : UInt8 → Bool} (hp : p 0 = false) (hsource : source = before ++ rest)
    (hi : i = before.length) :
    source.skipWhile? p i = some (i + (rest.takeWhile p).length) := by
  induction rest generalizing before i with
  | nil =>
      rw [skipWhile?, peek?_eq hsource hi]
      simp [hp]
  | cons b rest ih =>
      have hread : source[i]? = some b := by simp [hsource, hi]
      have hrest : source = before ++ [b] ++ rest := by simp [hsource]
      rw [skipWhile?, peek?_eq hsource hi, List.headD_cons]
      dsimp only
      split_ifs with hb
      · split
        next hnone => rw [hread] at hnone; cases hnone
        next =>
          rw [ih hrest (by simp [hi]), List.takeWhile_cons_of_pos hb, List.length_cons,
            Nat.add_right_comm, Nat.add_assoc]
      · rw [List.takeWhile_cons_of_neg hb, List.length_nil, Nat.add_zero]

end Text

namespace Cursor

open Text

lemma fractionEnd?_of_ne {source before rest : Text} {i : Nat} (hsource : source = before ++ rest)
    (hi : i = before.length) (hne : rest.headD 0 ≠ 46) : fractionEnd? source i = some i := by
  rw [fractionEnd?, peek?_eq hsource hi]
  exact if_neg hne

lemma fractionEnd?_of_dot {source before rest : Text} {i : Nat}
    (hsource : source = before ++ 46 :: rest) (hi : i = before.length) :
    fractionEnd? source i =
      some (if rest.takeWhile isDigit = [] then i
        else i + (46 :: rest.takeWhile isDigit).length) := by
  have hrest : source = before ++ [46] ++ rest := by simp [hsource]
  have hread : source[i]? = some 46 := by simp [hsource, hi]
  have hnext : i + 1 = (before ++ [46]).length := by simp [hi]
  have hstop : i + 1 + (rest.takeWhile isDigit).length =
      i + (46 :: rest.takeWhile isDigit).length := by rw [List.length_cons]; omega
  have hdigit : isDigit (rest.headD 0) = true ↔ rest.takeWhile isDigit ≠ [] := by
    cases rest with
    | nil => decide
    | cons b rest => simp [List.takeWhile_cons]
  rw [fractionEnd?, peek?_eq hsource hi, peek?_eq hrest hnext,
    skipWhile?_eq (by decide) hrest hnext, hread, hstop]
  show (if isDigit (rest.headD 0) then _ else _) = _
  split_ifs with hhead hnil hnil
  · exact absurd hnil (hdigit.mp hhead)
  · rfl
  · rfl
  · exact absurd (hdigit.mpr hnil) hhead

/-- The end of a numeral. -/
lemma fractionEnd?_eq {source before s : Text} (hsource : source = before ++ s) :
    fractionEnd? source (before.length + (s.takeWhile isDigit).length) =
      some (before.length + (Lexeme.numeral s).length) := by
  have hsplit : source = before ++ s.takeWhile isDigit ++ s.dropWhile isDigit := by
    rw [List.append_assoc, List.takeWhile_append_dropWhile, hsource]
  have hlength : before.length + (s.takeWhile isDigit).length =
    (before ++ s.takeWhile isDigit).length := List.length_append.symm
  fun_cases Lexeme.numeral s with
  | case1 whole rest hrest hno =>
      rw [hrest] at hsplit
      rw [fractionEnd?_of_dot hsplit hlength, if_pos hno]
  | case2 whole rest hrest hsome =>
      rw [hrest] at hsplit
      rw [fractionEnd?_of_dot hsplit hlength, if_neg hsome, List.length_append, Nat.add_assoc]
  | case3 whole hnone =>
      refine fractionEnd?_of_ne hsplit hlength fun hdot => ?_
      cases hrest : s.dropWhile isDigit with
      | nil => rw [hrest] at hdot; exact absurd hdot (by decide)
      | cons b rest =>
          rw [hrest, List.headD_cons] at hdot
          exact hnone rest (hdot ▸ hrest)

/-! ### Cursors in a source -/

/-- The cursor stands behind a part of the source. -/
structure At (c : Cursor) (before : Text) : Prop where
  offset_eq : c.offset = before.length
  pos_eq : c.pos = before.endPos

variable {c : Cursor} {source before rest : Text} {b : UInt8}

lemma at_start : start.At [] := ⟨rfl, rfl⟩

lemma At.after_lineFeed (h : c.At before) :
    At ⟨c.offset + 1, c.line + 1, c.offset + 1⟩ (before ++ [10]) := by
  refine ⟨by simp [h.offset_eq], ?_⟩
  rw [endPos_concat, ← h.pos_eq]
  simp [pos, Pos.after]

lemma At.after_text (h : c.At before) (text : Text) (htext : 10 ∉ text) :
    At ⟨c.offset + text.length, c.line, c.lineStart⟩ (before ++ text) := by
  refine ⟨by simp [h.offset_eq], ?_⟩
  rw [endPos_append before htext, ← h.pos_eq]
  have hcolumn : ((c.offset + text.length : Nat) : Int) - c.lineStart + 1 =
      c.offset - c.lineStart + 1 + text.length := by omega
  rw [pos, pos, Pos.shift, hcolumn]

lemma At.getElem?_eq (h : c.At before) (hsource : source = before ++ b :: rest) :
    source[c.offset]? = some b := by
  simp [hsource, h.offset_eq]

lemma At.slice?_eq (h : c.At before) {text : Text} (hsource : source = before ++ (text ++ rest)) :
    source.slice? c.offset (c.offset + text.length) = some text := by
  rw [h.offset_eq, Text.slice?_eq hsource]

/-- A lexeme is emitted as its token. -/
lemma At.exists_emit? (h : c.At before) {l : Lexeme} (hl : 10 ∉ l.text)
    (hsource : source = before ++ (l.text ++ rest)) :
    ∃ next, c.emit? source l.kind (c.offset + l.text.length) l.value =
      some (next, [l.token before.endPos]) ∧ next.At (before ++ l.text) := by
  refine ⟨_, ?_, h.after_text l.text hl⟩
  rw [emit?, h.slice?_eq hsource, h.pos_eq]
  rfl

/-- A run from the next byte on ends where the run from this byte on does. -/
lemma At.skipWhile?_succ (h : c.At before) (hsource : source = before ++ b :: rest)
    {p : UInt8 → Bool} (hzero : p 0 = false) (hb : p b) :
    source.skipWhile? p (c.offset + 1) = some (c.offset + ((b :: rest).takeWhile p).length) := by
  have hrest : source = before ++ [b] ++ rest := by simp [hsource]
  rw [skipWhile?_eq hzero hrest (by simp [h.offset_eq]), List.takeWhile_cons_of_pos hb,
    List.length_cons, Nat.add_right_comm, Nat.add_assoc]

/-- What a step gives at a lexeme: its token, or an error if its value is too
large. -/
def Takes (before : Text) (b : UInt8) (l : Lexeme)
    (result : Option (Except LexError (Cursor × List Token))) : Prop :=
  if literalLimit ≤ l.value then
    result = some (.error ⟨b, before.endPos, .outOfRange l.text⟩)
  else ∃ next, result = some (.ok (next, [l.token before.endPos])) ∧ next.At (before ++ l.text)

/-- A lexeme that is no numeral is taken when its token is emitted. -/
lemma At.takes_emit (h : c.At before) {l : Lexeme} (hvalue : l.value = 0) (hl : 10 ∉ l.text)
    (hsource : source = before ++ (l.text ++ rest)) :
    Takes before b l
      (do return .ok (← c.emit? source l.kind (c.offset + l.text.length) 0)) := by
  obtain ⟨next, hemit, hnext⟩ := h.exists_emit? hl hsource
  rw [hvalue] at hemit
  rw [Takes, if_neg (by rw [hvalue]; decide), hemit]
  exact ⟨next, rfl, hnext⟩

lemma At.takes_number (h : c.At before) (hsource : source = before ++ b :: rest)
    (hb : isDigit b) :
    Takes before b ⟨.number, Lexeme.numeral (b :: rest)⟩ (c.number? source) := by
  obtain ⟨tail, htail⟩ := Lexeme.numeral_starts (b :: rest)
  obtain ⟨value, hlexeme⟩ := IsLexeme.exists_numeral hb rest
  have hdigits : source.slice? c.offset (c.offset + ((b :: rest).takeWhile isDigit).length) =
      some ((b :: rest).takeWhile isDigit) :=
    h.slice?_eq (by rw [List.takeWhile_append_dropWhile, hsource])
  have hnumeral : source = before ++ (Lexeme.numeral (b :: rest) ++ tail) := by
    rw [htail, hsource]
  have hstop : fractionEnd? source (c.offset + ((b :: rest).takeWhile isDigit).length) =
      some (c.offset + (Lexeme.numeral (b :: rest)).length) := by
    rw [h.offset_eq]
    exact fractionEnd?_eq hsource
  have hvalue : (Lexeme.mk .number (Lexeme.numeral (b :: rest))).value =
      decimalValue ((b :: rest).takeWhile isDigit) :=
    congrArg decimalValue (Lexeme.takeWhile_numeral (b :: rest))
  obtain ⟨next, hemit, hnext⟩ :=
    h.exists_emit? (l := ⟨.number, Lexeme.numeral (b :: rest)⟩) hlexeme.lineFeed_notMem hnumeral
  rw [hvalue] at hemit
  simp only [number?, h.skipWhile?_succ hsource (by decide) hb, hstop, hdigits, h.getElem?_eq hsource,
    h.slice?_eq hnumeral, Option.bind_eq_bind, Option.bind_some, Takes, hvalue]
  split_ifs with hlimit
  · rw [h.pos_eq]
    rfl
  · exact ⟨next, by rw [hemit]; rfl, hnext⟩

lemma At.takes_word (h : c.At before) (hsource : source = before ++ b :: rest)
    (hb : isLetter b) {word : Text} (hword : (b :: rest).takeWhile isWordByte = word) :
    Takes before b ⟨Lexeme.wordKind word, word⟩ (do return .ok (← c.word? source)) := by
  have hlexeme : IsLexeme (Lexeme.wordKind word) word 0 :=
    IsLexeme.of_isWord (hword ▸ isWord_takeWhile hb rest)
  have hsplit : source = before ++ (word ++ (b :: rest).dropWhile isWordByte) := by
    rw [← hword, List.takeWhile_append_dropWhile, hsource]
  have hemit : c.word? source =
      c.emit? source (Lexeme.wordKind word) (c.offset + word.length) 0 := by
    rw [word?, h.skipWhile?_succ hsource (by decide) (by rw [isWordByte, hb, Bool.true_or]), hword,
      Option.bind_eq_bind, Option.bind_some, h.slice?_eq hsplit]
    rfl
  rw [hemit]
  exact h.takes_emit hlexeme.value_eq hlexeme.lineFeed_notMem hsplit

lemma At.takes_sign (h : c.At before) (hsource : source = before ++ 61 :: rest) {l : Lexeme}
    (hl : Lexeme.first? (61 :: rest) = some l) :
    Takes before b l (do return .ok (← c.sign? source)) := by
  have hpeek : source.peek? (c.offset + 1) = some (rest.headD 0) :=
    peek?_eq (by rw [hsource, List.append_cons]) (by simp [h.offset_eq])
  by_cases harrow : ∃ tail, rest = 62 :: tail
  · obtain ⟨tail, rfl⟩ := harrow
    cases hl
    have hread : source[c.offset + 1]? = some 62 := by simp [hsource, h.offset_eq]
    rw [sign?, hpeek, hread]
    exact h.takes_emit rfl (by decide) hsource
  · rw [Lexeme.first?.eq_7 rest fun tail htail => harrow ⟨tail, htail⟩] at hl
    cases hl
    have hne : rest.headD 0 ≠ 62 := by
      intro hhead
      cases rest with
      | nil => exact absurd hhead (by decide)
      | cons d rest => exact harrow ⟨rest, by rw [← hhead, List.headD_cons]⟩
    have hemit : c.sign? source = c.emit? source .equal (c.offset + 1) 0 := by
      rw [sign?, hpeek, Option.bind_eq_bind, Option.bind_some, if_neg hne]
    rw [hemit]
    exact h.takes_emit rfl (by decide) hsource

/-- **A step takes the lexeme at the cursor.** -/
lemma At.takes_step (h : c.At before) (hsource : source = before ++ b :: rest) {l : Lexeme}
    (hl : Lexeme.first? (b :: rest) = some l) : Takes before b l (c.step? source) := by
  have hblank : isBlank b = false := (longestAt_iff.mpr ⟨hl, rfl⟩).isBlank_eq_false
  rw [step?, h.getElem?_eq hsource, Option.bind_eq_bind, Option.bind_some]
  split
  case h_5 => exact h.takes_sign hsource hl
  case h_6 => exact absurd hblank (by decide)
  case h_7 =>
    rw [if_neg (by simp [hblank])]
    split_ifs with hdigit hletter
    · rw [Lexeme.first?_of_isDigit hdigit] at hl
      cases hl
      exact h.takes_number hsource hdigit
    · rw [Lexeme.first?_of_isLetter hletter] at hl
      cases hl
      exact h.takes_word hsource hletter rfl
    · rw [Lexeme.first?, if_neg hdigit, if_neg hletter] at hl
      · cases hl
      all_goals simp_all
  -- the punctuation marks of one byte
  all_goals
    cases hl
    exact h.takes_emit rfl (by decide) hsource

/-- A step goes over a blank. -/
lemma At.exists_step_blank (h : c.At before) (hsource : source = before ++ b :: rest)
    (hb : isBlank b) :
    ∃ next, c.step? source = some (.ok (next, [])) ∧ next.At (before ++ [b]) := by
  rw [step?, h.getElem?_eq hsource, Option.bind_eq_bind, Option.bind_some]
  split
  case h_6 => exact ⟨_, rfl, h.after_lineFeed⟩
  case h_7 hlf =>
    rw [if_pos hb]
    exact ⟨_, rfl, h.after_text [b] (by simpa [eq_comm] using hlf)⟩
  all_goals exact absurd hb (by decide)

/-- A step stops at a byte that starts no lexeme. -/
lemma At.step_of_none (h : c.At before) (hsource : source = before ++ b :: rest)
    (hb : isBlank b = false) (hnone : Lexeme.first? (b :: rest) = none) :
    c.step? source = some (.error ⟨b, before.endPos, .unexpected⟩) := by
  have hdigit : ¬ isDigit b := fun hdigit => by
    rw [Lexeme.first?_of_isDigit hdigit] at hnone
    cases hnone
  have hletter : ¬ isLetter b := fun hletter => by
    rw [Lexeme.first?_of_isLetter hletter] at hnone
    cases hnone
  rw [step?, h.getElem?_eq hsource, Option.bind_eq_bind, Option.bind_some]
  split
  case h_5 =>
    exact absurd ⟨rest, rfl⟩ (Lexeme.first?_eq_none_iff.mp hnone .equal "=" 0 (.fixed (by decide)))
  case h_6 => exact absurd hb (by decide)
  case h_7 =>
    rw [if_neg (by simp [hb]), if_neg hdigit, if_neg hletter, h.pos_eq]
    rfl
  all_goals cases hnone

/-! ### The scan -/

lemma At.offset_lt (h : c.At before) (hsource : source = before ++ b :: rest) :
    ¬ source.length ≤ c.offset := by
  simp [hsource, h.offset_eq]

lemma scan?_of_error {e : LexError} (hoffset : ¬ source.length ≤ c.offset)
    (hstep : c.step? source = some (.error e)) : c.scan? source = some (.error e) := by
  rw [scan?, if_neg hoffset]
  split <;> simp_all

lemma scan?_of_ok {next : Cursor} {tokens : List Token} (hoffset : ¬ source.length ≤ c.offset)
    (hstep : c.step? source = some (.ok (next, tokens))) :
    c.scan? source = (next.scan? source).map (Except.map (tokens ++ ·)) := by
  rw [scan?, if_neg hoffset]
  split <;> simp_all

/-- **No read is outside of the source**, and the scan by offsets is the scan. -/
lemma At.scan?_eq (h : c.At before) (hsource : source = before ++ rest) :
    c.scan? source = some (Token.scanFrom before.endPos rest) := by
  generalize hpos : before.endPos = pos
  fun_induction Token.scanFrom pos rest generalizing c before with
  | case1 pos =>
      have hend : source.length ≤ c.offset := by simp [hsource, h.offset_eq]
      obtain ⟨next, hemit, -⟩ := h.exists_emit? (l := ⟨.eof, []⟩) List.not_mem_nil hsource
      have hemit : c.emit? source .eof c.offset 0 =
        some (next, [Token.endAt before.endPos]) := hemit
      rw [scan?, if_pos hend, hemit, hpos]
      rfl
  | case2 pos b rest hb ih =>
      obtain ⟨next, hstep, hnext⟩ := h.exists_step_blank hsource hb
      have hrest := ih hnext (by rw [hsource, List.append_cons]) (by rw [endPos_concat, hpos])
      rw [scan?_of_ok (h.offset_lt hsource) hstep, hrest]
      cases Token.scanFrom (pos.after b) rest <;> rfl
  | case3 pos b rest hb hnone =>
      subst hpos
      exact scan?_of_error (h.offset_lt hsource)
        (h.step_of_none hsource (Bool.eq_false_iff.mpr hb) hnone)
  | case4 pos b rest hb l hl hlimit =>
      subst hpos
      have hstep := h.takes_step hsource hl
      rw [Takes, if_pos hlimit] at hstep
      exact scan?_of_error (h.offset_lt hsource) hstep
  | case5 pos b rest hb l hl hlimit ih =>
      subst hpos
      have hstep := h.takes_step hsource hl
      rw [Takes, if_neg hlimit] at hstep
      obtain ⟨next, hstep, hnext⟩ := hstep
      obtain ⟨hlexeme, tail, htail⟩ := Lexeme.isLexeme_of_first? hl
      -- the first byte of the lexeme has been split off the rest
      have hdrop : rest.drop (l.text.length - 1) = tail := by
        obtain ⟨a, text, htext⟩ := List.exists_cons_of_ne_nil hlexeme.ne_nil
        rw [htext, List.cons_append, List.cons.injEq] at htail
        rw [htext, ← htail.2, List.length_cons, Nat.add_sub_cancel, List.drop_left]
      have hrest := ih hnext (by rw [hsource, hdrop, ← htail, List.append_assoc])
        (endPos_append before hlexeme.lineFeed_notMem)
      rw [scan?_of_ok (h.offset_lt hsource) hstep, hrest]
      rfl

end Cursor

end FlatClosure
