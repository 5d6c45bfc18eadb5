/-
Trees are written and read back.

The text of a tree whose names are identifiers and whose numbers are not
negative is scanned into the tokens of a derivation of the tree. What scanning
and parsing give is such a tree.

* `Tree.IsWritable`: the trees in question.
* `ScansTo`: scanning goes over a part of a source and gives some tokens.
* `Tree.ReadsBack`: wherever a tree is written, its text is scanned into a
  derivation; `Tree.readsBack`: this holds of every writable tree.
* `Grammar.Expression.isWritable_tree`: a derivation from the tokens of a source
  has a writable tree.
* `Tree.render_round_trip`: writable trees are those that are read, and they are
  read from their own texts.
-/
import FlatClosure.Proofs.Parsing
import FlatClosure.Proofs.Scanning

namespace FlatClosure

open Grammar

/-- Whether a text is an identifier: a word other than the keywords. -/
def Text.isIdentifier (t : Text) : Bool := t.isWord && t ≠ "fun" && t ≠ "let"

/-- The names of the tree are identifiers and its numbers are not negative. From
above they are bounded by their type, at one less than `literalLimit`. -/
def Tree.IsWritable : Tree → Prop
  | num value => 0 ≤ value.toInt
  | var name => name.isIdentifier
  | lam param body => param.isIdentifier ∧ body.IsWritable
  | app func arg => func.IsWritable ∧ arg.IsWritable
  | letIn name bind body => name.isIdentifier ∧ bind.IsWritable ∧ body.IsWritable

/-- The identifiers are the symbols of the lexical grammar. -/
lemma isLexeme_symbol_iff {t : Text} {value : Nat} :
    IsLexeme .symbol t value ↔ t.isIdentifier ∧ value = 0 := by
  simp only [Text.isIdentifier, Bool.and_eq_true, decide_eq_true_eq, and_assoc]
  constructor
  · intro h
    cases h with
    | symbol hword hfun hlet => exact ⟨hword, hfun, hlet, rfl⟩
    | fixed hmem => simp [fixedLexemes] at hmem
  · rintro ⟨hword, hfun, hlet, rfl⟩
    exact .symbol hword hfun hlet

/-! ### Scanning over a part of a source -/

/-- Behind `before` and in front of `rest`, scanning goes over `text` and gives
the tokens `ts`. -/
def ScansTo (before text rest : Text) (ts : List Token) : Prop :=
  Token.scanFrom before.endPos (text ++ rest) =
    (Token.scanFrom (Text.endPos (before ++ text)) rest).map (ts ++ ·)

/-- The token of a lexeme behind `before`. -/
def tokenAt (before : Text) (kind : Kind) (text : Text) : TokenOf kind :=
  ⟨(Lexeme.mk kind text).token before.endPos, rfl⟩

variable {before text rest : Text}

lemma ScansTo.append {text' : Text} {ts ts' : List Token}
    (h : ScansTo before text (text' ++ rest) ts) (h' : ScansTo (before ++ text) text' rest ts') :
    ScansTo before (text ++ text') rest (ts ++ ts') := by
  rw [ScansTo, List.append_assoc, h, h', List.append_assoc]
  cases Token.scanFrom (Text.endPos (before ++ (text ++ text'))) rest with
  | error e => rfl
  | ok tokens => simp [Except.map]

lemma scansTo_blank : ScansTo before " " rest [] := by
  have hblank : ∀ b ∈ Text.ofString " ", Text.isBlank b := List.forall_mem_singleton.mpr rfl
  rw [ScansTo, Token.scanFrom_blanks hblank]
  cases Token.scanFrom (Text.endPos (before ++ " ")) rest <;> rfl

lemma scansTo_token {kind : Kind} {value : Nat} (h : LongestAt kind text value (text ++ rest))
    (hvalue : value < literalLimit) :
    ScansTo before text rest [(tokenAt before kind text).token] := by
  obtain ⟨hfirst, rfl⟩ := longestAt_iff.mp h
  exact Token.scanFrom_token (Lexeme.standsAt_token hfirst hvalue)

/-- A lexeme that is spelled in one way. -/
lemma scansTo_fixed {kind : Kind} (hmem : (kind, text) ∈ fixedLexemes) (hrest : rest.EndsLexeme) :
    ScansTo before text rest [(tokenAt before kind text).token] :=
  scansTo_token ((IsLexeme.fixed hmem).longestAt_append hrest) (by decide)

lemma scansTo_symbol (htext : text.isIdentifier) (hrest : rest.EndsLexeme) :
    ScansTo before text rest [(tokenAt before .symbol text).token] :=
  scansTo_token ((isLexeme_symbol_iff.mpr ⟨htext, rfl⟩).longestAt_append hrest) (by decide)

/-- A parenthesis starts no longer lexeme, whatever stands behind it. -/
lemma scansTo_mark {kind : Kind} (h : Lexeme.first? (text ++ rest) = some ⟨kind, text⟩)
    (hvalue : (Lexeme.mk kind text).value = 0) :
    ScansTo before text rest [(tokenAt before kind text).token] :=
  scansTo_token (longestAt_iff.mpr ⟨h, hvalue⟩) (by decide)

/-! ### Writing and reading a tree -/

namespace Tree

/-- The text of a tree that is called. -/
def renderCallee (t : Tree) : Text :=
  if t.isOpenEnded then "(" ++ (t.render ++ ")") else t.render

/-- Wherever the tree is written, its text is scanned into the tokens of a
derivation of the tree, and so is its text as a callee. -/
def ReadsBack (t : Tree) : Prop :=
  ∀ before rest, rest.EndsLexeme →
    (∃ d : Expression, d.tree = t ∧ ScansTo before t.render rest d.tokens) ∧
      ∃ a : Application, a.tree = t ∧ ScansTo before t.renderCallee rest a.tokens

/-- A tree that is no function and no binding is its own callee. -/
lemma ReadsBack.of_application {t : Tree} (hopen : t.isOpenEnded = false)
    (h : ∀ before rest, rest.EndsLexeme →
      ∃ a : Application, a.tree = t ∧ ScansTo before t.render rest a.tokens) : t.ReadsBack := by
  intro before rest hrest
  obtain ⟨a, ha, hscan⟩ := h before rest hrest
  have hcallee : t.renderCallee = t.render := by simp [renderCallee, hopen]
  exact ⟨⟨.application a, ha, hscan⟩, a, ha, hcallee ▸ hscan⟩

/-- A function or a binding is called in parentheses. -/
lemma ReadsBack.of_expression {t : Tree} (hopen : t.isOpenEnded = true)
    (h : ∀ before rest, rest.EndsLexeme →
      ∃ d : Expression, d.tree = t ∧ ScansTo before t.render rest d.tokens) : t.ReadsBack := by
  intro before rest hrest
  refine ⟨h before rest hrest, ?_⟩
  obtain ⟨d, hd, hscan⟩ := h (before ++ "(") (")" ++ rest) (Text.endsLexeme_cons rfl rest)
  refine ⟨.mk (.paren (tokenAt before .leftParen "(") d
    (tokenAt (before ++ "(" ++ t.render) .rightParen ")")) .nil, hd, ?_⟩
  have hcallee : t.renderCallee = "(" ++ (t.render ++ ")") := by simp [renderCallee, hopen]
  have hopening : ScansTo before "(" (t.render ++ ")" ++ rest)
    [(tokenAt before .leftParen "(").token] := scansTo_mark rfl rfl
  have hparen := hopening.append (hscan.append (scansTo_mark rfl rfl))
  rw [hcallee]
  simpa [Application.tokens, Atom.tokens, Calls.tokens] using hparen

lemma readsBack_num {value : Int64} (h : 0 ≤ value.toInt) : ReadsBack (num value) := by
  obtain ⟨n, hn⟩ := Int.eq_ofNat_of_zero_le h
  have hlt : n < 2 ^ 63 := by
    have := value.toInt_lt
    omega
  have hlexeme : IsLexeme .number (Text.ofNat n) n := by
    have := IsLexeme.whole (Text.ofNat_ne_nil n) fun _ hb => Text.isDigit_of_mem_ofNat hb
    rwa [Text.decimalValue_ofNat] at this
  have hrender : (num value).render = Text.ofNat n := by rw [render, hn]; rfl
  refine .of_application rfl fun before rest hrest => ?_
  refine ⟨.mk (.number (tokenAt before .number (Text.ofNat n))) .nil, ?_, ?_⟩
  · have hvalue : Int64.ofNat (Lexeme.mk .number (Text.ofNat n)).value = value := by
      rw [hlexeme.value_eq]
      exact Int64.toInt_inj.mp ((Int64.toInt_ofNat_of_lt hlt).trans hn.symm)
    exact congrArg num hvalue
  · rw [hrender]
    exact scansTo_token (hlexeme.longestAt_append hrest) hlt

lemma readsBack_var {name : Text} (h : name.isIdentifier) : ReadsBack (var name) :=
  .of_application rfl fun before _ hrest =>
    ⟨.mk (.symbol (tokenAt before .symbol name)) .nil, rfl, scansTo_symbol h hrest⟩

lemma readsBack_lam {param : Text} {body : Tree} (hparam : param.isIdentifier)
    (hbody : body.ReadsBack) : ReadsBack (lam param body) := by
  have hrender : (lam param body).render =
      "fun" ++ (" " ++ (param ++ (" " ++ ("=>" ++ (" " ++ body.render))))) := by
    have hfun : Text.ofString "fun " = Text.ofString "fun" ++ Text.ofString " " := rfl
    have harrow : Text.ofString " => " =
      Text.ofString " " ++ (Text.ofString "=>" ++ Text.ofString " ") := rfl
    simp only [render, hfun, harrow, List.append_assoc]
  refine .of_expression rfl fun before rest hrest => ?_
  obtain ⟨⟨d, hd, hscan⟩, -⟩ :=
    hbody (before ++ "fun" ++ " " ++ param ++ " " ++ "=>" ++ " ") rest hrest
  refine ⟨.lam (tokenAt before .funKeyword "fun") (tokenAt (before ++ "fun" ++ " ") .symbol param)
    (tokenAt (before ++ "fun" ++ " " ++ param ++ " ") .arrow "=>") d, ?_, ?_⟩
  · exact congrArg (lam param) hd
  · rw [hrender]
    refine (scansTo_fixed (by decide) ?_).append (scansTo_blank.append
      ((scansTo_symbol hparam ?_).append (scansTo_blank.append
        ((scansTo_fixed (by decide) ?_).append (scansTo_blank.append hscan)))))
    all_goals exact Text.endsLexeme_cons rfl _

lemma readsBack_app {func arg : Tree} (hfunc : func.ReadsBack) (harg : arg.ReadsBack) :
    ReadsBack (app func arg) := by
  have hrender : (app func arg).render = func.renderCallee ++ ("(" ++ (arg.render ++ ")")) := by
    simp only [render, renderCallee, List.append_assoc]
  refine .of_application rfl fun before rest hrest => ?_
  obtain ⟨-, a, ha, hcallee⟩ := hfunc before ("(" ++ (arg.render ++ ")") ++ rest)
    (Text.endsLexeme_cons rfl _)
  obtain ⟨⟨d, hd, hscan⟩, -⟩ := harg (before ++ func.renderCallee ++ "(") (")" ++ rest)
    (Text.endsLexeme_cons rfl _)
  refine ⟨a.snoc (tokenAt (before ++ func.renderCallee) .leftParen "(") (.mk d .nil)
    (tokenAt (before ++ func.renderCallee ++ "(" ++ arg.render) .rightParen ")"), ?_, ?_⟩
  · rw [Application.tree_snoc, ha, Arguments.apply, hd]
    rfl
  · have hopening : ScansTo (before ++ func.renderCallee) "(" (arg.render ++ ")" ++ rest)
      [(tokenAt (before ++ func.renderCallee) .leftParen "(").token] := scansTo_mark rfl rfl
    have happ := hcallee.append (hopening.append (hscan.append (scansTo_mark rfl rfl)))
    rw [hrender]
    simpa [Arguments.tokens, MoreArguments.tokens] using happ

lemma readsBack_letIn {name : Text} {bind body : Tree} (hname : name.isIdentifier)
    (hbind : bind.ReadsBack) (hbody : body.ReadsBack) : ReadsBack (letIn name bind body) := by
  have hrender : (letIn name bind body).render = "let" ++ (" " ++ (name ++ (" " ++ ("=" ++
      (" " ++ (bind.render ++ (";" ++ (" " ++ body.render)))))))) := by
    have hlet : Text.ofString "let " = Text.ofString "let" ++ Text.ofString " " := rfl
    have hequal : Text.ofString " = " =
      Text.ofString " " ++ (Text.ofString "=" ++ Text.ofString " ") := rfl
    have hsemicolon : Text.ofString "; " = Text.ofString ";" ++ Text.ofString " " := rfl
    simp only [render, hlet, hequal, hsemicolon, List.append_assoc]
  refine .of_expression rfl fun before rest hrest => ?_
  obtain ⟨⟨d, hd, hscan⟩, -⟩ :=
    hbind (before ++ "let" ++ " " ++ name ++ " " ++ "=" ++ " ")
      (";" ++ (" " ++ body.render) ++ rest) (Text.endsLexeme_cons rfl _)
  obtain ⟨⟨d', hd', hscan'⟩, -⟩ :=
    hbody (before ++ "let" ++ " " ++ name ++ " " ++ "=" ++ " " ++ bind.render ++ ";" ++ " ")
      rest hrest
  refine ⟨.letIn (tokenAt before .letKeyword "let") (tokenAt (before ++ "let" ++ " ") .symbol name)
    (tokenAt (before ++ "let" ++ " " ++ name ++ " ") .equal "=") d
    (tokenAt (before ++ "let" ++ " " ++ name ++ " " ++ "=" ++ " " ++ bind.render)
      .semicolon ";") d', ?_, ?_⟩
  · rw [Expression.tree, hd, hd']
    rfl
  · rw [hrender]
    refine (scansTo_fixed (by decide) ?_).append (scansTo_blank.append
      ((scansTo_symbol hname ?_).append (scansTo_blank.append
        ((scansTo_fixed (by decide) ?_).append (scansTo_blank.append
          (hscan.append ((scansTo_fixed (by decide) ?_).append
            (scansTo_blank.append hscan'))))))))
    all_goals exact Text.endsLexeme_cons rfl _

/-- **The text of a writable tree is scanned into a derivation of the tree.** -/
lemma readsBack : ∀ {t : Tree}, t.IsWritable → t.ReadsBack
  | num _, h => readsBack_num h
  | var _, h => readsBack_var h
  | lam _ _, ⟨hparam, hbody⟩ => readsBack_lam hparam (readsBack hbody)
  | app _ _, ⟨hfunc, harg⟩ => readsBack_app (readsBack hfunc) (readsBack harg)
  | letIn _ _ _, ⟨hname, hbind, hbody⟩ =>
      readsBack_letIn hname (readsBack hbind) (readsBack hbody)

end Tree

/-! ### The end of the tokens -/

/-- The tokens of a derivation are those before the end token behind them. -/
lemma Grammar.Expression.beforeEnd_tokens (d : Expression) (pos : Pos) :
    Token.beforeEnd (d.tokens ++ [Token.endAt pos]) = d.tokens := by
  obtain ⟨tree, stack, hnext, -⟩ := d.exists_nextAll? []
  have hkinds : ∀ t ∈ d.tokens, decide (t.kind ≠ .eof) = true := fun t ht =>
    decide_eq_true (Parser.kind_ne_eof_of_nextAll? hnext t ht)
  rw [Token.beforeEnd, List.takeWhile_append_of_pos hkinds]
  simp [Token.endAt]

/-- The text of a writable tree is scanned and parsed to the tree. -/
lemma Tree.exists_scan_render {t : Tree} (h : t.IsWritable) :
    ∃ tokens, Token.scan t.render = .ok tokens ∧ Tree.ofTokens tokens = .ok t := by
  obtain ⟨⟨d, rfl, hscan⟩, -⟩ := readsBack h [] [] Text.endsLexeme_nil
  rw [ScansTo, List.append_nil, List.nil_append, Token.scanFrom] at hscan
  exact ⟨_, hscan, Tree.ofTokens_of_tokens_eq (d.beforeEnd_tokens _).symm⟩

/-! ### What is read is writable -/

/-- The token is no symbol other than an identifier and no negative number. -/
def Token.IsWritten (t : Token) : Prop :=
  (t.kind = .symbol → t.lexeme.isIdentifier) ∧ (t.kind = .number → 0 ≤ t.value.toInt)

lemma Token.isWritten_of_mem_scan {source : Text} {tokens : List Token}
    (h : scan source = .ok tokens) {t : Token} (ht : t ∈ tokens) : t.IsWritten := by
  rcases isScanned_of_mem_scanFrom h ht with heof | ⟨l, s, pos, hfirst, hvalue, rfl⟩
  · simp [IsWritten, heof]
  · obtain ⟨kind, text⟩ := l
    obtain ⟨hlexeme, -⟩ := Lexeme.isLexeme_of_first? hfirst
    refine ⟨fun hkind => ?_, fun _ => ?_⟩
    · obtain rfl : kind = .symbol := hkind
      exact (isLexeme_symbol_iff.mp hlexeme).1
    · rw [Lexeme.token, Int64.toInt_ofNat_of_lt hvalue]
      exact Int.natCast_nonneg _

namespace Grammar

mutual

/-- The tree of written tokens is writable. -/
lemma Expression.isWritable_tree : ∀ d : Expression, (∀ t ∈ d.tokens, t.IsWritten) →
    d.tree.IsWritable
  | .letIn keyword name equal bind semicolon body, h => by
      rw [Expression.tokens, List.forall_mem_cons, List.forall_mem_cons, List.forall_mem_cons,
        List.forall_mem_append, List.forall_mem_cons] at h
      obtain ⟨-, hname, -, hbind, -, hbody⟩ := h
      exact ⟨hname.1 name.kind_eq, bind.isWritable_tree hbind, body.isWritable_tree hbody⟩
  | .lam keyword param arrow body, h => by
      rw [Expression.tokens, List.forall_mem_cons, List.forall_mem_cons,
        List.forall_mem_cons] at h
      obtain ⟨-, hparam, -, hbody⟩ := h
      exact ⟨hparam.1 param.kind_eq, body.isWritable_tree hbody⟩
  | .application a, h => a.isWritable_tree h

lemma Application.isWritable_tree : ∀ a : Application, (∀ t ∈ a.tokens, t.IsWritten) →
    a.tree.IsWritable
  | .mk atom calls, h => by
      obtain ⟨hatom, hcalls⟩ := List.forall_mem_append.mp h
      exact calls.isWritable_apply (atom.isWritable_tree hatom) hcalls

lemma Calls.isWritable_apply : ∀ (calls : Calls) {callee : Tree}, callee.IsWritable →
    (∀ t ∈ calls.tokens, t.IsWritten) → (calls.apply callee).IsWritable
  | .nil, callee, hcallee, h => hcallee
  | .cons opening args closing rest, callee, hcallee, h => by
      rw [Calls.tokens, List.forall_mem_cons, List.forall_mem_append, List.forall_mem_cons] at h
      obtain ⟨-, hargs, -, hrest⟩ := h
      exact rest.isWritable_apply (args.isWritable_apply hcallee hargs) hrest

lemma Arguments.isWritable_apply : ∀ (args : Arguments) {callee : Tree}, callee.IsWritable →
    (∀ t ∈ args.tokens, t.IsWritten) → (args.apply callee).IsWritable
  | .mk first more, callee, hcallee, h => by
      obtain ⟨hfirst, hmore⟩ := List.forall_mem_append.mp h
      exact more.isWritable_apply ⟨hcallee, first.isWritable_tree hfirst⟩ hmore

lemma MoreArguments.isWritable_apply : ∀ (more : MoreArguments) {callee : Tree},
    callee.IsWritable → (∀ t ∈ more.tokens, t.IsWritten) → (more.apply callee).IsWritable
  | .nil, callee, hcallee, h => hcallee
  | .cons comma arg rest, callee, hcallee, h => by
      obtain ⟨harg, hrest⟩ := List.forall_mem_append.mp (List.forall_mem_cons.mp h).2
      exact rest.isWritable_apply ⟨hcallee, arg.isWritable_tree harg⟩ hrest

lemma Atom.isWritable_tree : ∀ a : Atom, (∀ t ∈ a.tokens, t.IsWritten) → a.tree.IsWritable
  | .number t, h => (h t.token List.mem_cons_self).2 t.kind_eq
  | .symbol t, h => (h t.token List.mem_cons_self).1 t.kind_eq
  | .paren opening e closing, h => by
      obtain ⟨he, -⟩ := List.forall_mem_append.mp (List.forall_mem_cons.mp h).2
      exact e.isWritable_tree he

end

end Grammar

/-- A tree that is scanned and parsed is writable. -/
lemma Tree.isWritable_of_ofTokens {source : Text} {tokens : List Token} {t : Tree}
    (hscan : Token.scan source = .ok tokens) (hparse : Tree.ofTokens tokens = .ok t) :
    t.IsWritable := by
  obtain ⟨d, hd, rfl⟩ := Tree.exists_of_ofTokens hparse
  refine d.isWritable_tree fun u hu => ?_
  rw [hd] at hu
  exact Token.isWritten_of_mem_scan hscan (List.takeWhile_subset _ hu)

/-- **Trees are read back.** The text of a tree with identifiers as names and
numbers from zero on is scanned and parsed to this tree; scanning and parsing
give such trees only; and two of them with one text are equal. -/
theorem Tree.render_round_trip :
    (∀ t : Tree, t.IsWritable →
      ∃ tokens, Token.scan t.render = .ok tokens ∧ Tree.ofTokens tokens = .ok t) ∧
    (∀ t : Tree, t.IsWritable ↔
      ∃ source tokens, Token.scan source = .ok tokens ∧ Tree.ofTokens tokens = .ok t) ∧
    (∀ t t' : Tree, t.IsWritable → t'.IsWritable → t.render = t'.render → t = t') := by
  refine ⟨fun t h => Tree.exists_scan_render h, fun t => ⟨fun h => ?_, ?_⟩, ?_⟩
  · obtain ⟨tokens, hscan, hparse⟩ := Tree.exists_scan_render h
    exact ⟨t.render, tokens, hscan, hparse⟩
  · rintro ⟨source, tokens, hscan, hparse⟩
    exact Tree.isWritable_of_ofTokens hscan hparse
  · intro t t' h h' hrender
    obtain ⟨tokens, hscan, hparse⟩ := Tree.exists_scan_render h
    obtain ⟨tokens', hscan', hparse'⟩ := Tree.exists_scan_render h'
    rw [← hrender, hscan] at hscan'
    cases hscan'
    rw [hparse] at hparse'
    exact Except.ok.inj hparse'

end FlatClosure
