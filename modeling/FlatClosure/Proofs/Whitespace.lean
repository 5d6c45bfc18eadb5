/-
Scanning splits at blanks.

No lexeme goes over a blank, so what stands in front of a run of blanks and what stands
behind it are scanned apart. Behind the run only the places are other ones.

* `Pos.offsetBy`: a place of a text that stands behind another one;
  `Text.endPos_append_eq`: this is where it stands in the joined text.
* `Token.scanFrom_offsetBy`: scanning from another place on.
* `IsLexeme.starts_of_append`, `Piece.Decompose.append`, `Stuck.append`: the part in front of a
  blank is decomposed as it is alone.
* `Token.scan_append_of_ok`, `Token.scan_append_of_error`: scanning past a run of blanks.
* `Text.Separates`, `Token.scan_append_of_separates`: the same where a token ends without a
  blank behind it.
* `Respaced`, `Token.ScansAlike`: texts that differ in the blanks between their tokens, and
  tokens that differ in their positions.
* `Token.scan_splits_at_blanks`: the tokens and the errors of a joined text.
-/
import FlatClosure.Proofs.TokenRendering

namespace FlatClosure

/-! ### Places in a joined text -/

/-- The place `p` of a text that begins at `origin`: on the first line of the text the
column moves, on the others only the line does. -/
def Pos.offsetBy (p origin : Pos) : Pos :=
  if p.line = 1 then ⟨origin.line, origin.column + (p.column - 1)⟩
  else ⟨origin.line + (p.line - 1), p.column⟩

namespace Pos

lemma start_offsetBy (origin : Pos) : start.offsetBy origin = origin := by
  simp [offsetBy, start]

/-- Going over a byte and moving a text can be exchanged. -/
lemma after_offsetBy {p : Pos} (hp : 1 ≤ p.line) (b : UInt8) (origin : Pos) :
    (p.after b).offsetBy origin = (p.offsetBy origin).after b := by
  by_cases hb : b = 10 <;> by_cases hline : p.line = 1
  · simp [after, offsetBy, hb, hline]
  · have hnext : p.line + 1 ≠ 1 := by omega
    simp only [after, offsetBy, hb, hline, hnext, if_true, if_false, mk.injEq, and_true]
    omega
  · simp only [after, offsetBy, hb, hline, if_true, if_false, mk.injEq, true_and]
    omega
  · simp [after, offsetBy, hb, hline]

lemma shift_offsetBy (p : Pos) (n : Nat) (origin : Pos) :
    (p.shift n).offsetBy origin = (p.offsetBy origin).shift n := by
  by_cases hline : p.line = 1
  · simp only [shift, offsetBy, hline, if_true, mk.injEq, true_and]
    omega
  · simp [shift, offsetBy, hline]

lemma one_le_line_after {p : Pos} (hp : 1 ≤ p.line) (b : UInt8) : 1 ≤ (p.after b).line := by
  rw [after]
  split_ifs
  · exact Int.le_add_one hp
  · exact hp

end Pos

lemma Text.one_le_line_endPos (t : Text) : 1 ≤ t.endPos.line := by
  show (1 : Int) ≤ t.count 10 + 1
  omega

/-- **The end of a joined text** is the end of its second part, moved behind the first. -/
lemma Text.endPos_append_eq (t s : Text) : endPos (t ++ s) = s.endPos.offsetBy t.endPos := by
  induction s using List.reverseRecOn with
  | nil => rw [List.append_nil, endPos_nil, Pos.start_offsetBy]
  | append_singleton s b ih =>
      rw [← List.append_assoc, endPos_concat, endPos_concat, ih,
        Pos.after_offsetBy (one_le_line_endPos s)]

/-- The token of a text that begins at `origin`. -/
def Token.offsetBy (token : Token) (origin : Pos) : Token :=
  { token with pos := token.pos.offsetBy origin }

/-- The error of a text that begins at `origin`. -/
def LexError.offsetBy (e : LexError) (origin : Pos) : LexError :=
  { e with pos := e.pos.offsetBy origin }

/-- What scanning gives for a text that begins at `origin`, from what it gives for the text
alone. -/
def Token.offsetAll (origin : Pos) :
    Except LexError (List Token) → Except LexError (List Token)
  | .ok tokens => .ok (tokens.map (·.offsetBy origin))
  | .error e => .error (e.offsetBy origin)

/-- **Scanning from another place on** changes nothing but places. -/
lemma Token.scanFrom_offsetBy {p : Pos} (hp : 1 ≤ p.line) (origin : Pos) (s : Text) :
    scanFrom (p.offsetBy origin) s = offsetAll origin (scanFrom p s) := by
  fun_induction scanFrom p s with
  | case1 p => rw [scanFrom]; rfl
  | case2 p b rest hblank ih =>
      rw [scanFrom, if_pos hblank, ← Pos.after_offsetBy hp, ih (Pos.one_le_line_after hp b)]
  | case3 p b rest hblank hnone =>
      rw [scanFrom, if_neg hblank, hnone]
      rfl
  | case4 p b rest hblank lexeme hfirst hlimit =>
      rw [scanFrom, if_neg hblank, hfirst]
      dsimp only
      rw [if_pos hlimit]
      rfl
  | case5 p b rest hblank lexeme hfirst hlimit ih =>
      rw [scanFrom, if_neg hblank, hfirst]
      dsimp only
      rw [if_neg hlimit, ← Pos.shift_offsetBy, ih hp]
      cases scanFrom (p.shift lexeme.text.length) (rest.drop (lexeme.text.length - 1)) <;> rfl

/-! ### In front of a blank -/

section

variable {kind : Kind} {text s more : Text} {value : Nat} {c : UInt8}

/-- A lexeme that starts a text ends in front of the first blank. -/
lemma IsLexeme.starts_of_append (h : IsLexeme kind text value) (hc : Text.isBlank c)
    (hstarts : text <+: s ++ c :: more) : text <+: s := by
  rcases List.prefix_or_prefix_of_prefix hstarts (List.prefix_append s (c :: more)) with
    hle | ⟨tail, rfl⟩
  · exact hle
  · cases tail with
    | nil => exact (List.append_nil s).symm ▸ List.prefix_rfl
    | cons b tail =>
        -- what goes on behind the text is the blank
        obtain ⟨rfl, -⟩ := List.cons_prefix_cons.mp ((List.prefix_append_right_inj s).mp hstarts)
        have hb := h.isBlank_eq_false_of_mem (List.mem_append_right s List.mem_cons_self)
        rw [hc] at hb
        cases hb

lemma LongestAt.append (h : LongestAt kind text value s) (hc : Text.isBlank c) (more : Text) :
    LongestAt kind text value (s ++ c :: more) :=
  ⟨h.isLexeme, h.starts.trans (List.prefix_append s (c :: more)),
    fun hlexeme hstarts => h.longest hlexeme (hlexeme.starts_of_append hc hstarts)⟩

lemma Token.StandsAt.append {token : Token} {before : Text} (h : token.StandsAt before s)
    (hc : Text.isBlank c) (more : Text) : token.StandsAt before (s ++ c :: more) := by
  obtain ⟨value, hlongest, hvalue⟩ := h.longest
  exact ⟨h.ne_nil, ⟨value, hlongest.append hc more, hvalue⟩, h.pos_eq⟩

/-- The pieces of a text are those in front of a blank. -/
lemma Piece.Decompose.append {before rest : Text} {pieces : List Piece}
    (h : Decompose before pieces rest) (hc : Text.isBlank c) (more : Text) :
    Decompose before pieces (rest ++ c :: more) := by
  induction pieces generalizing before with
  | nil => exact trivial
  | cons p pieces ih =>
      obtain ⟨hp, hpieces⟩ := h
      refine ⟨?_, ih hpieces⟩
      have hstands := hp.append hc more
      rwa [List.append_assoc, List.append_assoc] at hstands

/-- A text that is stuck is so in front of a blank. -/
lemma Stuck.append {b : UInt8} {cause : LexError.Cause} (h : Stuck s b cause)
    (hc : Text.isBlank c) (more : Text) : Stuck (s ++ c :: more) b cause := by
  cases h with
  | unexpected hblank hno =>
      exact .unexpected hblank fun kind text value hlexeme hstarts =>
        hno kind text value hlexeme (hlexeme.starts_of_append hc hstarts)
  | outOfRange hlongest hvalue => exact .outOfRange (hlongest.append hc more) hvalue

end

/-! ### Scanning past blanks -/

/-- A run of blanks that is not empty. -/
structure Text.IsGap (w : Text) : Prop where
  ne_nil : w ≠ []
  isBlank_of_mem : ∀ c ∈ w, isBlank c

instance (w : Text) : Decidable w.IsGap :=
  decidable_of_iff (w ≠ [] ∧ w.all Text.isBlank)
    ⟨fun h => ⟨h.1, List.all_eq_true.mp h.2⟩,
      fun h => ⟨h.ne_nil, List.all_eq_true.mpr h.isBlank_of_mem⟩⟩

namespace Token

variable {a w : Text}

/-- **Past a text that can be scanned** and a run of blanks, the rest is scanned from its
place on. -/
lemma scan_append_of_ok {tokens : List Token} (h : scan a = .ok tokens) (hw : w.IsGap) :
    ∃ body, tokens = body ++ [endAt a.endPos] ∧
      ∀ b, scan (a ++ w ++ b) = (offsetAll (Text.endPos (a ++ w)) (scan b)).map (body ++ ·) := by
  obtain ⟨pieces, blanks, rest, ha, hpieces, hblanks, hend⟩ := exists_pieces [] a
  obtain ⟨c, w', rfl⟩ := List.exists_cons_of_ne_nil hw.ne_nil
  have hc : Text.isBlank c := hw.isBlank_of_mem c List.mem_cons_self
  rcases hend with rfl | ⟨b, cause, hstuck⟩
  · rw [List.append_nil] at ha hpieces
    rw [ha, scan_eq_ok hpieces hblanks] at h
    cases h
    refine ⟨pieces.map Piece.token, by rw [ha], fun b => ?_⟩
    have hall : ∀ b ∈ blanks ++ c :: w', Text.isBlank b :=
      List.forall_mem_append.mpr ⟨hblanks, hw.isBlank_of_mem⟩
    have hpieces' : Piece.Decompose [] pieces (blanks ++ c :: w' ++ b) := by
      rw [List.append_assoc, List.cons_append]
      exact hpieces.append hc (w' ++ b)
    have hscan := scan_append hpieces' hall
    rw [← List.append_assoc, ← ha] at hscan
    rw [hscan, scan, ← scanFrom_offsetBy le_rfl, Pos.start_offsetBy]
  · rw [ha, scan_eq_error hpieces hblanks hstuck] at h
    cases h

/-- **Where a text cannot be scanned**, it cannot be in front of blanks either, for the
same reason. -/
lemma scan_append_of_error {e : LexError} (h : scan a = .error e) (hw : w.IsGap) (b : Text) :
    scan (a ++ w ++ b) = .error e := by
  obtain ⟨pieces, blanks, rest, ha, hpieces, hblanks, hend⟩ := exists_pieces [] a
  obtain ⟨c, w', rfl⟩ := List.exists_cons_of_ne_nil hw.ne_nil
  have hc : Text.isBlank c := hw.isBlank_of_mem c List.mem_cons_self
  rcases hend with rfl | ⟨b', cause, hstuck⟩
  · rw [List.append_nil] at ha hpieces
    rw [ha, scan_eq_ok hpieces hblanks] at h
    cases h
  · rw [ha, scan_eq_error hpieces hblanks hstuck] at h
    cases h
    have hpieces' := hpieces.append hc (w' ++ b)
    rw [List.append_assoc] at hpieces'
    have hscan := scan_eq_error hpieces' hblanks (hstuck.append hc (w' ++ b))
    rw [← List.append_assoc, ← ha] at hscan
    rw [List.append_assoc, List.cons_append, hscan]

end Token

/-! ### Where a token ends -/

/-- The pieces of a text are those of a shorter one that still has all of them. -/
lemma Piece.Decompose.cut {before rest more : Text} {pieces : List Piece}
    (h : Decompose before pieces (rest ++ more)) : Decompose before pieces rest := by
  induction pieces generalizing before with
  | nil => exact trivial
  | cons p pieces ih =>
      obtain ⟨hp, hpieces⟩ := h
      obtain ⟨value, hlongest, hvalue⟩ := hp.longest
      refine ⟨⟨hp.ne_nil, ⟨value, ⟨hlongest.isLexeme, List.prefix_append _ _, ?_⟩, hvalue⟩,
        hp.pos_eq⟩, ih hpieces⟩
      intro kind text value hlexeme hstarts
      refine hlongest.longest hlexeme (hstarts.trans ⟨more, ?_⟩)
      simp only [List.append_assoc]

/-- In the joined text, a token ends or blanks stand where the first text ends. -/
def Text.MeetAtToken (a b : Text) : Prop :=
  ∃ pieces blanks, a = pieces.flatMap Piece.text ++ blanks ∧ (∀ c ∈ blanks, isBlank c) ∧
    Piece.Decompose [] pieces (blanks ++ b)

/-- Blanks between two texts. There may be none where a token ends without them. -/
structure Text.Separates (w a b : Text) : Prop where
  isBlank_of_mem : ∀ c ∈ w, isBlank c
  meet : w = [] → a.MeetAtToken b

lemma Text.IsGap.separates {w : Text} (hw : w.IsGap) (a b : Text) : w.Separates a b :=
  ⟨hw.isBlank_of_mem, fun h => absurd h hw.ne_nil⟩

namespace Token

variable {a b w : Text}

/-- What stands before and behind the blanks is scanned apart, also if there are none. -/
lemma scan_append_of_separates (hw : w.Separates a b) :
    (∀ e, scan a = .error e → scan (a ++ w ++ b) = .error e) ∧
    ∀ tokens, scan a = .ok tokens → ∃ body, tokens = body ++ [endAt a.endPos] ∧
      scan (a ++ w ++ b) = (offsetAll (Text.endPos (a ++ w)) (scan b)).map (body ++ ·) := by
  by_cases hnil : w = []
  · obtain ⟨pieces, blanks, rfl, hblanks, hpieces⟩ := hw.meet hnil
    rw [hnil, List.append_nil, scan_eq_ok hpieces.cut hblanks, scan_append hpieces hblanks]
    refine ⟨fun e he => (by cases he), fun tokens htokens => ?_⟩
    cases htokens
    refine ⟨_, rfl, ?_⟩
    rw [scan, ← scanFrom_offsetBy le_rfl, Pos.start_offsetBy]
  · have hgap : w.IsGap := ⟨hnil, hw.isBlank_of_mem⟩
    refine ⟨fun e he => scan_append_of_error he hgap b, fun tokens htokens => ?_⟩
    obtain ⟨body, hbody, hscan⟩ := scan_append_of_ok htokens hgap
    exact ⟨body, hbody, hscan b⟩

end Token

/-! ### Other blanks -/

/-- Two texts differ in the blanks between their tokens: where one has blanks, the other one
has blanks too or has the end of a token. -/
inductive Respaced : Text → Text → Prop where
  | refl (t : Text) : Respaced t t
  | gap {w w' a b b' : Text} (hw : w.Separates a b) (hw' : w'.Separates a b')
      (h : Respaced b b') : Respaced (a ++ w ++ b) (a ++ w' ++ b')

namespace Token

/-- Two scans give the same tokens up to positions, or fail at the same byte and for the
same reason. -/
inductive ScansAlike : Except LexError (List Token) → Except LexError (List Token) → Prop where
  | ok {ts ts' : List Token} (h : agreeAll ts ts') : ScansAlike (.ok ts) (.ok ts')
  | error {e e' : LexError} (hchar : e.char = e'.char) (hcause : e.cause = e'.cause) :
      ScansAlike (.error e) (.error e')

lemma agreeAll_refl (ts : List Token) : agreeAll ts ts :=
  agreeAll_iff.mpr (List.forall₂_same.mpr fun _ _ => ⟨rfl, rfl, rfl⟩)

lemma agreeAll_offsetBy {ts ts' : List Token} (h : agreeAll ts ts') (origin origin' : Pos) :
    agreeAll (ts.map (·.offsetBy origin)) (ts'.map (·.offsetBy origin')) := by
  rw [agreeAll_iff, List.forall₂_map_left_iff, List.forall₂_map_right_iff]
  exact agreeAll_iff.mp h

lemma ScansAlike.refl (x : Except LexError (List Token)) : ScansAlike x x := by
  cases x with
  | ok ts => exact .ok (agreeAll_refl ts)
  | error e => exact .error rfl rfl

/-- Behind the same tokens, and at any two places. -/
lemma ScansAlike.offsetAll {x y : Except LexError (List Token)} (h : ScansAlike x y)
    (body : List Token) (origin origin' : Pos) :
    ScansAlike ((Token.offsetAll origin x).map (body ++ ·))
      ((Token.offsetAll origin' y).map (body ++ ·)) := by
  cases h with
  | ok h => exact .ok (agreeAll_append (agreeAll_refl body) (agreeAll_offsetBy h origin origin'))
  | error hchar hcause => exact .error hchar hcause

lemma scansAlike_of_respaced {s s' : Text} (h : Respaced s s') :
    ScansAlike (scan s) (scan s') := by
  induction h with
  | refl t => exact .refl _
  | @gap w w' a b b' hw hw' _ ih =>
      obtain ⟨herror, hok⟩ := scan_append_of_separates hw
      obtain ⟨herror', hok'⟩ := scan_append_of_separates hw'
      cases ha : scan a with
      | error e =>
          rw [herror e ha, herror' e ha]
          exact .refl _
      | ok tokens =>
          obtain ⟨body, hbody, hscan⟩ := hok tokens ha
          obtain ⟨body', hbody', hscan'⟩ := hok' tokens ha
          obtain rfl : body = body' := List.append_cancel_right (hbody.symm.trans hbody')
          rw [hscan, hscan']
          exact ih.offsetAll body _ _

/-- **Scanning splits at blanks.** Let a run of blanks that is not empty stand between two
texts. If both can be scanned, the joined text has the tokens of the first one without
its end, and then those of the second one. If the first one cannot be scanned, the error is
the same for the joined text, and if only the second one cannot, it is the error of that.
What comes from the second text is moved to where it stands in the joined one. So other
blanks between tokens change the positions of tokens and nothing else. -/
theorem scan_splits_at_blanks (a b : Text) {w : Text} (hw : w.IsGap) :
    (∀ ta tb, scan a = .ok ta → scan b = .ok tb → ∃ body, ta = body ++ [endAt a.endPos] ∧
      scan (a ++ w ++ b) = .ok (body ++ tb.map (·.offsetBy (Text.endPos (a ++ w))))) ∧
    (∀ e, scan a = .error e → scan (a ++ w ++ b) = .error e) ∧
    (∀ ta e, scan a = .ok ta → scan b = .error e →
      scan (a ++ w ++ b) = .error (e.offsetBy (Text.endPos (a ++ w)))) ∧
    (∀ front, front.endPos.offsetBy (Text.endPos (a ++ w)) = Text.endPos (a ++ w ++ front)) ∧
    ∀ s s', Respaced s s' → ScansAlike (scan s) (scan s') := by
  refine ⟨fun ta tb ha hb => ?_, fun e he => scan_append_of_error he hw b, fun ta e ha hb => ?_,
    fun front => (Text.endPos_append_eq _ _).symm, fun s s' => scansAlike_of_respaced⟩
  · obtain ⟨body, hbody, hscan⟩ := scan_append_of_ok ha hw
    refine ⟨body, hbody, ?_⟩
    rw [hscan, hb]
    rfl
  · obtain ⟨body, -, hscan⟩ := scan_append_of_ok ha hw
    rw [hscan, hb]
    rfl

/-- A run of blanks over two lines, behind which a text of two lines begins, one on a line,
behind which scanning fails, and one where a token ends without it. -/
theorem scan_splits_at_blanks_lines :
    Text.IsGap "\r\n " ∧ Text.IsGap "\t" ∧
    scan ("x" ++ "\r\n " ++ "y\nz") = .ok [⟨.symbol, "x", ⟨1, 1⟩, 0⟩, ⟨.symbol, "y", ⟨2, 2⟩, 0⟩,
      ⟨.symbol, "z", ⟨3, 1⟩, 0⟩, endAt ⟨3, 2⟩] ∧
    scan ("x" ++ "\t" ++ "=$") = .error ⟨36, ⟨1, 4⟩, .unexpected⟩ ∧
    ScansAlike (scan "f(1)") (scan "f\n(1)") := by
  have hlines : Text.IsGap "\r\n " := by decide
  have htab : Text.IsGap "\t" := by decide
  have hfeed : Text.IsGap "\n" := by decide
  have hx : scan "x" = .ok [⟨.symbol, "x", ⟨1, 1⟩, 0⟩, endAt ⟨1, 2⟩] := by decide +kernel
  have hyz : scan "y\nz" =
      .ok [⟨.symbol, "y", ⟨1, 1⟩, 0⟩, ⟨.symbol, "z", ⟨2, 1⟩, 0⟩, endAt ⟨2, 2⟩] := by
    decide +kernel
  have herror : scan "=$" = .error ⟨36, ⟨1, 2⟩, .unexpected⟩ := by decide +kernel
  have hmeet : Text.MeetAtToken "f" "(1)" :=
    ⟨[⟨[], Lexeme.token ⟨.symbol, "f"⟩ (Text.endPos []), nofun⟩], [], rfl, nofun,
      Lexeme.standsAt_token (by decide) (by decide), trivial⟩
  have hnone : Text.Separates [] "f" "(1)" := ⟨nofun, fun _ => hmeet⟩
  have hspaced : Respaced "f(1)" "f\n(1)" := .gap hnone (hfeed.separates "f" "(1)") (.refl "(1)")
  obtain ⟨hok, -, -, -, halike⟩ := scan_splits_at_blanks "x" "y\nz" hlines
  obtain ⟨body, hbody, hscan⟩ := hok _ _ hx hyz
  obtain rfl : [⟨.symbol, "x", ⟨1, 1⟩, 0⟩] = body := List.append_cancel_right hbody
  have hfails := (scan_splits_at_blanks "x" "=$" htab).2.2.1 _ _ hx herror
  exact ⟨hlines, htab, hscan, hfails, halike _ _ hspaced⟩

end Token

end FlatClosure
