/-
The parser accepts the grammar.

What a parser has read is a derivation that is open at its end: each construct
on the stack stands for the tokens from where it starts to where its next
expression is missing. A token that is taken extends the derivation, and the
tokens of a derivation are all taken.

* `Parser.nextAll?`: the parser after several tokens, none of which is an end
  token; `Parser.run_eq_ok_iff`: a run is made of the tokens before the first end
  token.
* `StackRead`, `Parser.HasRead`: the tokens behind a stack and behind a parser.
* `Parser.HasRead.next`: one token that is taken; `Parser.HasRead.nextAll`:
  several. `Parser.HasRead.exists_of_result?`: the tree of a parser that may
  stop is the tree of a derivation of what it has read.
* `Expression.exists_nextAll?` and its companions: the tokens of a derivation
  are taken.
* `Tree.ofTokens_iff_derivation`: a list of tokens has a tree exactly if it has
  a derivation, and then it has one of each.
-/
import FlatClosure.Proofs.Grammar
import FlatClosure.Tree.Parse

namespace FlatClosure

open Grammar

/-! ### Runs -/

namespace Parser

/-- The parser after several tokens, if it takes them all. -/
def nextAll? (parser : Parser) (ts : List Token) : Option Parser := ts.foldlM next? parser

@[simp] lemma nextAll?_nil (parser : Parser) : parser.nextAll? [] = some parser := rfl

@[simp] lemma nextAll?_cons (parser : Parser) (t : Token) (ts : List Token) :
    parser.nextAll? (t :: ts) = (parser.next? t).bind (·.nextAll? ts) := rfl

@[simp] lemma nextAll?_append (parser : Parser) (ts ts' : List Token) :
    parser.nextAll? (ts ++ ts') = (parser.nextAll? ts).bind (·.nextAll? ts') :=
  List.foldlM_append

/-- An end token is never taken. -/
lemma next?_eq_none {parser : Parser} {t : Token} (h : t.kind = .eof) :
    parser.next? t = none := by
  cases parser with
  | callee tree stack =>
      rw [next?, h]
      dsimp only [afterExpression?]
      split <;> simp_all
  | _ => simp [next?, h]

/-- No end token is among the tokens that a parser takes. -/
lemma kind_ne_eof_of_nextAll? {parser parser' : Parser} {ts : List Token}
    (h : parser.nextAll? ts = some parser') : ∀ t ∈ ts, t.kind ≠ .eof := by
  induction ts generalizing parser with
  | nil => exact fun t ht => absurd ht List.not_mem_nil
  | cons u us ih =>
      rw [nextAll?_cons] at h
      obtain ⟨between, hu, hus⟩ := Option.bind_eq_some_iff.mp h
      refine List.forall_mem_cons.mpr ⟨fun heof => ?_, ih hus⟩
      rw [next?_eq_none heof] at hu
      cases hu

lemma finish_eq_ok_iff {parser : Parser} {t : Token} {tree : Tree} :
    parser.finish t = .ok tree ↔ parser.result? = some tree := by
  rw [finish]
  cases parser.result? with
  | none => simp
  | some tree' => simp

end Parser

/-- The tokens before the first end token; all of them where there is none. -/
def Token.beforeEnd (ts : List Token) : List Token := ts.takeWhile (·.kind ≠ .eof)

/-- A run gives a tree if the parser takes the tokens before the first end
token and may stop there. -/
lemma Parser.run_eq_ok_iff {parser : Parser} {last : Pos} {ts : List Token} {tree : Tree} :
    parser.run last ts = .ok tree ↔
      ∃ parser', parser.nextAll? (Token.beforeEnd ts) = some parser' ∧
        parser'.result? = some tree := by
  induction ts generalizing parser last with
  | nil => simp [run, Token.beforeEnd, finish_eq_ok_iff]
  | cons t ts ih =>
      by_cases heof : t.kind = .eof
      · simp [run, Token.beforeEnd, heof, finish_eq_ok_iff]
      · have hbefore : Token.beforeEnd (t :: ts) = t :: Token.beforeEnd ts :=
          List.takeWhile_cons_of_pos (by simpa using heof)
        rw [run, if_neg heof, hbefore, nextAll?_cons]
        cases parser.next? t with
        | none => simp
        | some parser' => exact ih

/-! ### What has been read -/

/-- The tokens of the constructs on a stack, up to where the innermost one
misses an expression. -/
inductive StackRead : List Frame → List Token → Prop where
  | nil : StackRead [] []
  | letBind {stack : List Frame} {ts : List Token} (h : StackRead stack ts)
      (keyword : TokenOf .letKeyword) (name : TokenOf .symbol) (equal : TokenOf .equal) :
      StackRead (.letBind name.token.lexeme :: stack)
        (ts ++ [keyword.token, name.token, equal.token])
  | letBody {stack : List Frame} {ts : List Token} (h : StackRead stack ts)
      (keyword : TokenOf .letKeyword) (name : TokenOf .symbol) (equal : TokenOf .equal)
      (bind : Expression) (semicolon : TokenOf .semicolon) :
      StackRead (.letBody name.token.lexeme bind.tree :: stack)
        (ts ++ keyword.token :: name.token :: equal.token :: (bind.tokens ++ [semicolon.token]))
  | lamBody {stack : List Frame} {ts : List Token} (h : StackRead stack ts)
      (keyword : TokenOf .funKeyword) (param : TokenOf .symbol) (arrow : TokenOf .arrow) :
      StackRead (.lamBody param.token.lexeme :: stack)
        (ts ++ [keyword.token, param.token, arrow.token])
  | paren {stack : List Frame} {ts : List Token} (h : StackRead stack ts)
      (opening : TokenOf .leftParen) : StackRead (.paren :: stack) (ts ++ [opening.token])
  | firstArgument {stack : List Frame} {ts : List Token} (h : StackRead stack ts)
      (a : Application) (opening : TokenOf .leftParen) :
      StackRead (.argument a.tree :: stack) (ts ++ (a.tokens ++ [opening.token]))
  | nextArgument {stack : List Frame} {ts : List Token} (h : StackRead stack ts)
      (a : Application) (opening : TokenOf .leftParen) (args : Arguments)
      (comma : TokenOf .comma) :
      StackRead (.argument (args.apply a.tree) :: stack)
        (ts ++ (a.tokens ++ opening.token :: (args.tokens ++ [comma.token])))

/-- The tokens that a parser has read. -/
inductive Parser.HasRead : Parser → List Token → Prop where
  | expression {stack : List Frame} {ts : List Token} (h : StackRead stack ts) :
      HasRead (.expression stack) ts
  | letName {stack : List Frame} {ts : List Token} (h : StackRead stack ts)
      (keyword : TokenOf .letKeyword) : HasRead (.letName stack) (ts ++ [keyword.token])
  | letEqual {stack : List Frame} {ts : List Token} (h : StackRead stack ts)
      (keyword : TokenOf .letKeyword) (name : TokenOf .symbol) :
      HasRead (.letEqual name.token.lexeme stack) (ts ++ [keyword.token, name.token])
  | funParam {stack : List Frame} {ts : List Token} (h : StackRead stack ts)
      (keyword : TokenOf .funKeyword) : HasRead (.funParam stack) (ts ++ [keyword.token])
  | funArrow {stack : List Frame} {ts : List Token} (h : StackRead stack ts)
      (keyword : TokenOf .funKeyword) (param : TokenOf .symbol) :
      HasRead (.funArrow param.token.lexeme stack) (ts ++ [keyword.token, param.token])
  | callee {stack : List Frame} {ts : List Token} (h : StackRead stack ts) (a : Application) :
      HasRead (.callee a.tree stack) (ts ++ a.tokens)

/-- Bodies that end with an expression make one expression with it. -/
lemma StackRead.exists_closeBodies {stack : List Frame} {ts : List Token}
    (h : StackRead stack ts) (d : Expression) :
    ∃ (d' : Expression) (stack' : List Frame) (ts' : List Token),
      Parser.closeBodies d.tree stack = (d'.tree, stack') ∧ StackRead stack' ts' ∧
        ts' ++ d'.tokens = ts ++ d.tokens := by
  induction h generalizing d with
  | letBody h keyword name equal bind semicolon ih =>
      obtain ⟨d', stack', ts', hclose, hstack, htokens⟩ :=
        ih (.letIn keyword name equal bind semicolon d)
      refine ⟨d', stack', ts', hclose, hstack, ?_⟩
      rw [htokens]
      simp [Expression.tokens]
  | lamBody h keyword param arrow ih =>
      obtain ⟨d', stack', ts', hclose, hstack, htokens⟩ := ih (.lam keyword param arrow d)
      refine ⟨d', stack', ts', hclose, hstack, ?_⟩
      rw [htokens]
      simp [Expression.tokens]
  -- any other construct stays open
  | nil => exact ⟨d, _, _, rfl, .nil, rfl⟩
  | letBind h keyword name equal => exact ⟨d, _, _, rfl, .letBind h keyword name equal, rfl⟩
  | paren h opening => exact ⟨d, _, _, rfl, .paren h opening, rfl⟩
  | firstArgument h a opening => exact ⟨d, _, _, rfl, .firstArgument h a opening, rfl⟩
  | nextArgument h a opening args comma =>
      exact ⟨d, _, _, rfl, .nextArgument h a opening args comma, rfl⟩

namespace Parser

/-- A token behind an expression that the innermost open construct takes. -/
lemma HasRead.afterExpression {stack : List Frame} {ts : List Token} (h : StackRead stack ts)
    (d : Expression) {t : Token} {parser : Parser}
    (hnext : afterExpression? t.kind (d.tree, stack) = some parser) :
    parser.HasRead (ts ++ d.tokens ++ [t]) := by
  cases h with
  | letBind h keyword name equal =>
      dsimp only [afterExpression?] at hnext
      split at hnext
      · next hkind =>
          cases hnext
          have hread := HasRead.expression (.letBody h keyword name equal d ⟨t, hkind⟩)
          simpa using hread
      · cases hnext
  | paren h opening =>
      dsimp only [afterExpression?] at hnext
      split at hnext
      · next hkind =>
          cases hnext
          have hread := HasRead.callee h (.mk (.paren opening d ⟨t, hkind⟩) .nil)
          simpa [Application.tokens, Application.tree, Atom.tokens, Atom.tree, Calls.tokens,
            Calls.apply] using hread
      · cases hnext
  | firstArgument h a opening =>
      dsimp only [afterExpression?] at hnext
      split at hnext
      · next hkind =>
          cases hnext
          have hread := HasRead.expression (.nextArgument h a opening (.mk d .nil) ⟨t, hkind⟩)
          simpa [Arguments.tokens, Arguments.apply, MoreArguments.tokens,
            MoreArguments.apply] using hread
      · next hkind =>
          cases hnext
          have hread := HasRead.callee h (a.snoc opening (.mk d .nil) ⟨t, hkind⟩)
          rw [Application.tree_snoc] at hread
          simpa [Arguments.tokens, Arguments.apply, MoreArguments.tokens,
            MoreArguments.apply] using hread
      · cases hnext
  | nextArgument h a opening args comma =>
      dsimp only [afterExpression?] at hnext
      split at hnext
      · next hkind =>
          cases hnext
          have hread :=
            HasRead.expression (.nextArgument h a opening (args.snoc comma d) ⟨t, hkind⟩)
          rw [Arguments.apply_snoc] at hread
          simpa using hread
      · next hkind =>
          cases hnext
          have hread := HasRead.callee h (a.snoc opening (args.snoc comma d) ⟨t, hkind⟩)
          rw [Application.tree_snoc, Arguments.apply_snoc] at hread
          simpa using hread
      · cases hnext
  | nil => cases hnext
  | letBody => cases hnext
  | lamBody => cases hnext

/-- **A token that is taken extends what has been read.** -/
lemma HasRead.next {parser parser' : Parser} {ts : List Token} {t : Token}
    (h : parser.HasRead ts) (hnext : parser.next? t = some parser') :
    parser'.HasRead (ts ++ [t]) := by
  cases h with
  | expression h =>
      rw [next?] at hnext
      split at hnext
      · next hkind => cases hnext; exact .letName h ⟨t, hkind⟩
      · next hkind => cases hnext; exact .funParam h ⟨t, hkind⟩
      · next hkind => cases hnext; exact .callee h (.mk (.number ⟨t, hkind⟩) .nil)
      · next hkind => cases hnext; exact .callee h (.mk (.symbol ⟨t, hkind⟩) .nil)
      · next hkind => cases hnext; exact .expression (.paren h ⟨t, hkind⟩)
      · cases hnext
  | letName h keyword =>
      rw [next?] at hnext
      split at hnext
      · next hkind =>
          cases hnext
          rw [List.append_assoc]
          exact .letEqual h keyword ⟨t, hkind⟩
      · cases hnext
  | letEqual h keyword name =>
      rw [next?] at hnext
      split at hnext
      · next hkind =>
          cases hnext
          rw [List.append_assoc]
          exact .expression (.letBind h keyword name ⟨t, hkind⟩)
      · cases hnext
  | funParam h keyword =>
      rw [next?] at hnext
      split at hnext
      · next hkind =>
          cases hnext
          rw [List.append_assoc]
          exact .funArrow h keyword ⟨t, hkind⟩
      · cases hnext
  | funArrow h keyword param =>
      rw [next?] at hnext
      split at hnext
      · next hkind =>
          cases hnext
          rw [List.append_assoc]
          exact .expression (.lamBody h keyword param ⟨t, hkind⟩)
      · cases hnext
  | callee h a =>
      rw [next?] at hnext
      split at hnext
      · next hkind =>
          cases hnext
          rw [List.append_assoc]
          exact .expression (.firstArgument h a ⟨t, hkind⟩)
      · obtain ⟨d, stack', ts', hclose, hstack, htokens⟩ := h.exists_closeBodies (.application a)
        rw [Expression.tree] at hclose
        rw [hclose] at hnext
        rw [Expression.tokens] at htokens
        rw [← htokens]
        exact .afterExpression hstack d hnext

lemma HasRead.nextAll {parser parser' : Parser} {ts us : List Token} (h : parser.HasRead ts)
    (hnext : parser.nextAll? us = some parser') : parser'.HasRead (ts ++ us) := by
  induction us generalizing parser ts with
  | nil =>
      cases hnext
      rwa [List.append_nil]
  | cons u us ih =>
      obtain ⟨next, hstep, hrest⟩ := Option.bind_eq_some_iff.mp hnext
      rw [List.append_cons]
      exact ih (h.next hstep) hrest

/-- **A parser that may stop has read a derivation of its tree.** -/
lemma HasRead.exists_of_result? {parser : Parser} {ts : List Token} {tree : Tree}
    (h : parser.HasRead ts) (hresult : parser.result? = some tree) :
    ∃ d : Expression, d.tokens = ts ∧ d.tree = tree := by
  cases h with
  | callee h a =>
      obtain ⟨d, stack', ts', hclose, hstack, htokens⟩ := h.exists_closeBodies (.application a)
      rw [Expression.tree] at hclose
      rw [result?, hclose] at hresult
      cases hstack with
      | nil => exact ⟨d, htokens, Option.some.inj hresult⟩
      | _ => cases hresult
  | _ => cases hresult

end Parser

/-! ### Derivations are read -/

namespace Grammar

open FlatClosure.Parser (closeBodies)

-- An expression ends with the bodies in it still on the stack: the parser is as
-- good as one that has read its whole tree, as far as a token is concerned that
-- opens no call. Such a token follows every expression of a derivation.
mutual

lemma Expression.exists_nextAll? : ∀ (d : Expression) (stack : List Frame),
    ∃ tree stack', (Parser.expression stack).nextAll? d.tokens = some (.callee tree stack') ∧
      closeBodies tree stack' = closeBodies d.tree stack
  | .letIn keyword name equal bind semicolon body, stack => by
      obtain ⟨tree, stack', hbind, hclose⟩ :=
        bind.exists_nextAll? (.letBind name.token.lexeme :: stack)
      obtain ⟨tree', stack'', hbody, hclose'⟩ :=
        body.exists_nextAll? (.letBody name.token.lexeme bind.tree :: stack)
      refine ⟨tree', stack'', ?_, hclose'⟩
      simp only [Expression.tokens, Parser.nextAll?_cons, Parser.nextAll?_append, Parser.next?,
        keyword.kind_eq, name.kind_eq, equal.kind_eq, semicolon.kind_eq, Option.bind_some, hbind,
        hclose]
      exact hbody
  | .lam keyword param arrow body, stack => by
      obtain ⟨tree, stack', hbody, hclose⟩ :=
        body.exists_nextAll? (.lamBody param.token.lexeme :: stack)
      refine ⟨tree, stack', ?_, hclose⟩
      simp only [Expression.tokens, Parser.nextAll?_cons, Parser.next?, keyword.kind_eq,
        param.kind_eq, arrow.kind_eq, Option.bind_some]
      exact hbody
  | .application a, stack => ⟨a.tree, stack, a.nextAll? stack, rfl⟩

lemma Application.nextAll? : ∀ (a : Application) (stack : List Frame),
    (Parser.expression stack).nextAll? a.tokens = some (.callee a.tree stack)
  | .mk atom calls, stack => by
      rw [Application.tokens, Parser.nextAll?_append, atom.nextAll? stack, Option.bind_some]
      exact calls.nextAll? atom.tree stack

lemma Calls.nextAll? : ∀ (calls : Calls) (callee : Tree) (stack : List Frame),
    (Parser.callee callee stack).nextAll? calls.tokens = some (.callee (calls.apply callee) stack)
  | .nil, _, _ => rfl
  | .cons opening args closing rest, callee, stack => by
      have hopening : (Parser.callee callee stack).next? opening.token =
          some (.expression (.argument callee :: stack)) := by
        simp [Parser.next?, opening.kind_eq]
      rw [Calls.tokens, Parser.nextAll?_cons, hopening, Option.bind_some, List.append_cons,
        Parser.nextAll?_append, args.nextAll? callee stack closing, Option.bind_some]
      exact rest.nextAll? (args.apply callee) stack

lemma Arguments.nextAll? : ∀ (args : Arguments) (callee : Tree) (stack : List Frame)
    (closing : TokenOf .rightParen),
    (Parser.expression (.argument callee :: stack)).nextAll? (args.tokens ++ [closing.token]) =
      some (.callee (args.apply callee) stack)
  | .mk first more, callee, stack, closing => by
      obtain ⟨tree, stack', hfirst, hclose⟩ := first.exists_nextAll? (.argument callee :: stack)
      rw [Arguments.tokens, List.append_assoc, Parser.nextAll?_append, hfirst, Option.bind_some]
      exact more.nextAll? hclose closing

lemma MoreArguments.nextAll? : ∀ (more : MoreArguments) {tree arg callee : Tree}
    {stack stack' : List Frame},
    closeBodies tree stack' = closeBodies arg (.argument callee :: stack) →
    ∀ closing : TokenOf .rightParen,
    (Parser.callee tree stack').nextAll? (more.tokens ++ [closing.token]) =
      some (.callee (more.apply (.app callee arg)) stack)
  | .nil, tree, arg, callee, stack, stack', hclose, closing => by
      simp [MoreArguments.tokens, Parser.next?, closing.kind_eq, hclose, closeBodies,
        Parser.afterExpression?, MoreArguments.apply]
  | .cons comma next rest, tree, arg, callee, stack, stack', hclose, closing => by
      obtain ⟨tree', stack'', hnext, hclose'⟩ :=
        next.exists_nextAll? (.argument (.app callee arg) :: stack)
      have hcomma : (Parser.callee tree stack').next? comma.token =
          some (.expression (.argument (.app callee arg) :: stack)) := by
        simp [Parser.next?, comma.kind_eq, hclose, closeBodies, Parser.afterExpression?]
      rw [MoreArguments.tokens, List.cons_append, List.append_assoc, Parser.nextAll?_cons, hcomma,
        Option.bind_some, Parser.nextAll?_append, hnext, Option.bind_some]
      exact rest.nextAll? hclose' closing

lemma Atom.nextAll? : ∀ (a : Atom) (stack : List Frame),
    (Parser.expression stack).nextAll? a.tokens = some (.callee a.tree stack)
  | .number t, stack => by simp [Atom.tokens, Parser.next?, t.kind_eq, Atom.tree]
  | .symbol t, stack => by simp [Atom.tokens, Parser.next?, t.kind_eq, Atom.tree]
  | .paren opening e closing, stack => by
      obtain ⟨tree, stack', he, hclose⟩ := e.exists_nextAll? (.paren :: stack)
      simp [Atom.tokens, Parser.next?, opening.kind_eq, closing.kind_eq, he, hclose, closeBodies,
        Parser.afterExpression?, Atom.tree]

end

end Grammar

/-! ### Parsing -/

/-- A tree of a list of tokens is that of a derivation of the tokens before the
first end token. -/
lemma Tree.exists_of_ofTokens {ts : List Token} {tree : Tree} (h : Tree.ofTokens ts = .ok tree) :
    ∃ d : Expression, d.tokens = Token.beforeEnd ts ∧ d.tree = tree := by
  obtain ⟨parser, hnext, hresult⟩ := Parser.run_eq_ok_iff.mp h
  exact (Parser.HasRead.nextAll (.expression .nil) hnext).exists_of_result? hresult

/-- A derivation of the tokens before the first end token gives its tree. -/
lemma Tree.ofTokens_of_tokens_eq {ts : List Token} {d : Expression}
    (h : d.tokens = Token.beforeEnd ts) : Tree.ofTokens ts = .ok d.tree := by
  obtain ⟨tree, stack, hnext, hclose⟩ := d.exists_nextAll? []
  refine Parser.run_eq_ok_iff.mpr ⟨_, h ▸ hnext, ?_⟩
  rw [Parser.result?, hclose]
  rfl

/-- **The parser accepts exactly the grammar.** A list of tokens has a tree if
and only if the tokens before its first end token are those of a derivation
with this tree; there is at most one such derivation, and where there is none
the result is an error of the parser. -/
theorem Tree.ofTokens_iff_derivation (ts : List Token) :
    (∀ tree, Tree.ofTokens ts = .ok tree ↔
      ∃ d : Expression, d.tokens = Token.beforeEnd ts ∧ d.tree = tree) ∧
    (∀ d d' : Expression, d.tokens = Token.beforeEnd ts → d'.tokens = Token.beforeEnd ts →
      d = d') ∧
    ((∃ e : ParseError, Tree.ofTokens ts = .error e) ↔
      ¬ ∃ d : Expression, d.tokens = Token.beforeEnd ts) := by
  refine ⟨fun tree => ⟨Tree.exists_of_ofTokens, ?_⟩, fun d d' hd hd' => ?_, ?_⟩
  · rintro ⟨d, hd, rfl⟩
    exact Tree.ofTokens_of_tokens_eq hd
  · exact Expression.tokens_injective (hd.trans hd'.symm)
  · constructor
    · rintro ⟨e, he⟩ ⟨d, hd⟩
      rw [Tree.ofTokens_of_tokens_eq hd] at he
      cases he
    · intro hnone
      cases hresult : Tree.ofTokens ts with
      | error e => exact ⟨e, rfl⟩
      | ok tree =>
          obtain ⟨d, hd, -⟩ := Tree.exists_of_ofTokens hresult
          exact absurd ⟨d, hd⟩ hnone

end FlatClosure
