/-
Names are words.

The names of a source are letters or underscores followed by letters,
underscores and digits, and so are the names that hygiene and conversion make
of them.

* `Text.isWord`; `Text.isWord_append`: a word can be continued;
  `Text.isWord_takeWhile`: the longest word at a letter is a word.
* `Token.IsScanned`, `Token.exists_of_scanFrom`: the tokens of a source are those
  of lexemes; `Token.isWord_of_mem_scanFrom`: the symbols of a source are words.
* `Parser.mem_names_next?`, `Parser.mem_names_run`: one token adds no name but
  its own, so a tree has no names but those of its symbols.
* `Text.isWord_of_mem_parse`: the names of a parsed source are words.
* `Tree.isWord_of_mem_hygienic`: hygiene keeps words words.
-/
import FlatClosure.Compile
import FlatClosure.Proofs.Basic
import FlatClosure.Proofs.Hygiene

namespace FlatClosure

namespace Text

/-- Whether a text is a letter or an underscore followed by letters,
underscores and digits. -/
def isWord (t : Text) : Bool := t.head?.any isLetter && t.all isWordByte

lemma isWord_iff {t : Text} :
    t.isWord ↔ (∃ b rest, t = b :: rest ∧ isLetter b) ∧ ∀ b ∈ t, isWordByte b := by
  cases t with
  | nil => simp [isWord]
  | cons b rest => simp [isWord]

/-- A word stays a word when letters, underscores and digits are added. -/
lemma isWord_append {t s : Text} (ht : t.isWord) (hs : ∀ b ∈ s, isWordByte b) :
    (t ++ s).isWord := by
  obtain ⟨⟨b, rest, rfl, hb⟩, hall⟩ := isWord_iff.mp ht
  refine isWord_iff.mpr ⟨⟨b, rest ++ s, rfl, hb⟩, fun c hc => ?_⟩
  rcases List.mem_append.mp hc with hc | hc
  · exact hall c hc
  · exact hs c hc

/-- The longest word at a letter is a word. -/
lemma isWord_takeWhile {b : UInt8} (h : isLetter b) (rest : Text) :
    isWord ((b :: rest).takeWhile isWordByte) := by
  have hb : isWordByte b = true := by rw [isWordByte, h, Bool.true_or]
  exact isWord_iff.mpr ⟨⟨b, _, List.takeWhile_cons_of_pos hb, h⟩,
    List.all_eq_true.mp List.all_takeWhile⟩

/-- A longest run of bytes of a class ends before a byte outside of it. -/
lemma span_append {p : UInt8 → Bool} {run : Text} {b : UInt8}
    (hrun : ∀ c ∈ run, p c = true) (hb : p b = false) (rest : Text) :
    (run ++ b :: rest).takeWhile p = run ∧ (run ++ b :: rest).dropWhile p = b :: rest := by
  rw [List.takeWhile_append_of_pos hrun, List.dropWhile_append_of_pos hrun,
    List.takeWhile_cons_of_neg (by simp [hb]), List.dropWhile_cons_of_neg (by simp [hb]),
    List.append_nil]
  exact ⟨rfl, rfl⟩

lemma isWordByte_of_isDigit {b : UInt8} (h : isDigit b) : isWordByte b := by
  rw [isWordByte, h, Bool.or_true]

lemma isWord_append_ofNat {t : Text} (ht : t.isWord) (n : Nat) : (t ++ ofNat n).isWord :=
  isWord_append ht fun _ hb => isWordByte_of_isDigit (isDigit_of_mem_ofNat hb)

end Text

lemma isWord_mintEnv (n : Nat) : (mintEnv n).isWord := Text.isWord_append_ofNat (by decide) n

lemma isWord_mintCode (n : Nat) : (mintCode n).isWord := Text.isWord_append_ofNat (by decide) n

lemma isWord_mintTemp (n : Nat) : (mintTemp n).isWord := Text.isWord_append_ofNat (by decide) n

/-! ### Symbols of a source -/

/-- A symbol at the start of a text is a word. -/
lemma Lexeme.isWord_of_first? {s : Text} {l : Lexeme} (h : first? s = some l)
    (hkind : l.kind = .symbol) : l.text.isWord := by
  revert h
  fun_cases first? s <;> intro h
  case case9 b rest _ _ _ _ _ _ hdigit hletter word =>
      cases h
      exact Text.isWord_takeWhile hletter rest
  -- no other lexeme is a symbol
  all_goals cases h <;> cases hkind

/-- Whether a token is that of the lexeme of a text, with a value that fits. -/
def Token.IsScanned (token : Token) : Prop :=
  ∃ l s pos, Lexeme.first? s = some l ∧ l.value < literalLimit ∧ token = l.token pos

/-- The tokens of a source are those of lexemes, and one end token behind them. -/
lemma Token.exists_of_scanFrom {pos : Pos} {s : Text} {tokens : List Token}
    (h : scanFrom pos s = .ok tokens) :
    ∃ body last, tokens = body ++ [endAt last] ∧ ∀ token ∈ body, token.IsScanned := by
  fun_induction scanFrom pos s generalizing tokens with
  | case1 pos =>
      cases h
      exact ⟨[], pos, rfl, List.forall_mem_nil _⟩
  | case2 pos b rest hblank ih => exact ih h
  | case3 pos b rest hblank hnone => exact absurd h (by simp)
  | case4 pos b rest hblank lexeme hfirst hlimit => exact absurd h (by simp)
  | case5 pos b rest hblank lexeme hfirst hlimit ih =>
      obtain ⟨rest', hrest, rfl⟩ := Except.exists_of_map_ok h
      obtain ⟨body, last, rfl, hbody⟩ := ih hrest
      refine ⟨lexeme.token pos :: body, last, rfl, List.forall_mem_cons.mpr ⟨?_, hbody⟩⟩
      exact ⟨lexeme, _, pos, hfirst, Nat.not_le.mp hlimit, rfl⟩

lemma Token.isScanned_of_mem_scanFrom {pos : Pos} {s : Text} {tokens : List Token}
    (h : scanFrom pos s = .ok tokens) {token : Token} (htoken : token ∈ tokens) :
    token.kind = .eof ∨ token.IsScanned := by
  obtain ⟨body, last, rfl, hbody⟩ := exists_of_scanFrom h
  rcases List.mem_append.mp htoken with htoken | htoken
  · exact .inr (hbody token htoken)
  · rw [List.mem_singleton.mp htoken]
    exact .inl rfl

lemma Token.isWord_of_mem_scanFrom {pos : Pos} {s : Text} {tokens : List Token}
    (h : scanFrom pos s = .ok tokens) {token : Token} (htoken : token ∈ tokens)
    (hkind : token.kind = .symbol) : token.lexeme.isWord := by
  rcases isScanned_of_mem_scanFrom h htoken with heof | ⟨l, s', pos', hfirst, -, rfl⟩
  · rw [heof] at hkind
    cases hkind
  · exact l.isWord_of_first? hfirst hkind

/-! ### Names of a tree -/

/-- The names in an open construct. -/
def Frame.names : Frame → List Text
  | letBind name => [name]
  | letBody name bind => name :: bind.names
  | lamBody param => [param]
  | paren => []
  | argument func => func.names

namespace Parser

/-- The names in what a parser has read. -/
def names : Parser → List Text
  | expression stack | letName stack | funParam stack => stack.flatMap Frame.names
  | letEqual name stack | funArrow name stack => name :: stack.flatMap Frame.names
  | callee tree stack => tree.names ++ stack.flatMap Frame.names

/-- Closing bodies keeps the names. -/
lemma mem_names_closeBodies {tree : Tree} {stack : List Frame} {x : Text}
    (hx : x ∈ (closeBodies tree stack).1.names ++
      (closeBodies tree stack).2.flatMap Frame.names) :
    x ∈ tree.names ++ stack.flatMap Frame.names := by
  fun_induction closeBodies tree stack with
  | case1 tree name bind stack ih =>
      have h := ih hx
      simp only [Tree.names, List.flatMap_cons, Frame.names, List.cons_append, List.mem_cons,
        List.mem_append] at h ⊢
      tauto
  | case2 tree param stack ih =>
      have h := ih hx
      simp only [Tree.names, List.flatMap_cons, Frame.names, List.cons_append, List.mem_cons,
        List.mem_append, List.nil_append] at h ⊢
      tauto
  | case3 => exact hx

lemma mem_names_afterExpression? {kind : Kind} {read : Tree × List Frame} {parser : Parser}
    (h : afterExpression? kind read = some parser) {x : Text} (hx : x ∈ parser.names) :
    x ∈ read.1.names ++ read.2.flatMap Frame.names := by
  revert h
  fun_cases afterExpression? kind read <;> intro h <;> cases h <;>
    simp [names, Frame.names, Tree.names] at hx ⊢ <;> tauto

/-- A token adds no name but its own, and that only if it is a symbol. -/
lemma mem_names_next? {parser parser' : Parser} {token : Token}
    (h : parser.next? token = some parser') {x : Text} (hx : x ∈ parser'.names) :
    x ∈ parser.names ∨ token.kind = .symbol ∧ x = token.lexeme := by
  revert h
  fun_cases next? parser token <;> intro h
  case case16 tree stack hkind =>
      exact Or.inl (mem_names_closeBodies (mem_names_afterExpression? h hx))
  all_goals cases h <;> simp only [names, List.flatMap_cons, Frame.names, Tree.names,
    List.cons_append, List.nil_append, List.mem_cons] at hx ⊢ <;> tauto

lemma mem_names_finish {parser : Parser} {token : Token} {tree : Tree}
    (h : parser.finish token = .ok tree) {x : Text} (hx : x ∈ tree.names) :
    x ∈ parser.names := by
  cases hresult : parser.result? with
  | none => rw [finish, hresult] at h; exact absurd h (by simp)
  | some tree' =>
      rw [finish, hresult] at h
      obtain rfl := Except.ok.inj h
      cases parser with
      | callee read stack =>
          rw [result?] at hresult
          split at hresult
          next closed hclosed =>
            obtain rfl := Option.some.inj hresult
            refine mem_names_closeBodies ?_
            rw [hclosed]
            exact List.mem_append_left _ hx
          next => exact absurd hresult (by simp)
      | _ => exact absurd hresult (by simp [result?])

/-- The names of a tree are names of symbols. -/
lemma mem_names_run {parser : Parser} {last : Pos} {tokens : List Token} {tree : Tree}
    (h : parser.run last tokens = .ok tree) {x : Text} (hx : x ∈ tree.names) :
    x ∈ parser.names ∨ ∃ token ∈ tokens, token.kind = .symbol ∧ x = token.lexeme := by
  induction tokens generalizing parser last with
  | nil => exact Or.inl (mem_names_finish h hx)
  | cons token tokens ih =>
      rw [run] at h
      split_ifs at h with heof
      · exact Or.inl (mem_names_finish h hx)
      · cases hnext : parser.next? token with
        | none => rw [hnext] at h; exact absurd h (by simp)
        | some parser' =>
            rw [hnext] at h
            rcases ih h with hmem | ⟨token', htoken', hkind, rfl⟩
            · rcases mem_names_next? hnext hmem with hmem | hsymbol
              · exact Or.inl hmem
              · exact Or.inr ⟨token, List.mem_cons_self, hsymbol⟩
            · exact Or.inr ⟨token', List.mem_cons_of_mem token htoken', hkind, rfl⟩

end Parser

/-- **The names of a parsed source are words.** -/
theorem Text.isWord_of_mem_parse {source : Text} {parsed : Parsed}
    (h : source.parse = .ok parsed) {x : Text} (hx : x ∈ parsed.tree.names) : x.isWord := by
  rw [Text.parse] at h
  cases hscan : Token.scan source with
  | error e => rw [hscan] at h; exact absurd h (by simp)
  | ok tokens =>
      rw [hscan] at h
      dsimp only at h
      cases htree : Tree.ofTokens tokens with
      | error e => rw [htree] at h; exact absurd h (by simp)
      | ok tree =>
          rw [htree] at h
          obtain rfl := Except.ok.inj h
          rcases Parser.mem_names_run htree hx with hmem | ⟨token, htoken, hkind, rfl⟩
          · exact absurd hmem (by simp [Parser.names])
          · exact Token.isWord_of_mem_scanFrom hscan htoken hkind

/-! ### Hygiene -/

lemma isWord_underscored {name : Text} (h : name.isWord) (k : Nat) :
    (underscored name k).isWord := by
  refine Text.isWord_append h fun b hb => ?_
  rw [List.eq_of_mem_replicate hb]
  rfl

namespace Tree

/-- The names of a tree stay words. -/
lemma isWord_of_mem_hygienic {t : Tree} (ht : ∀ x ∈ t.names, x.isWord) {x : Text}
    (hx : x ∈ t.hygienic.names) : x.isWord := by
  rw [hygienic_eq, names_rename] at hx
  obtain ⟨y, hy, rfl⟩ := List.mem_map.mp hx
  obtain ⟨k, hk⟩ := exists_newName_eq hy
  rw [hk]
  exact isWord_underscored (ht y hy) k

end Tree

end FlatClosure
