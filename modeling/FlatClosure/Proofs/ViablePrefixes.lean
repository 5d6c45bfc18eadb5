/-
Errors of the parser point at the first impossible token.

Whatever constructs are open, there are tokens that close them. So the tokens
that a parser has taken are always the start of a list that has a tree, and a
token that it does not take is the first one that no such list goes on with.

* `Parser.Completes`: the parser takes some tokens and may stop after them.
* `Parser.closing`: tokens that close the constructs on a stack.
  `Parser.exists_completes`: every parser can be completed.
* `Parser.Rejects`: a token that is neither taken nor the end.
* `Parser.exists_of_run_error`: a run that fails takes the tokens before the one
  that it reports, and rejects that one.
* `Tree.ofTokens_error_first_impossible`: what an error of the parser says.
-/
import FlatClosure.Proofs.Parsing

namespace FlatClosure

open Grammar

/-- A token of which only the kind matters. -/
def TokenOf.plain (kind : Kind) : TokenOf kind := ⟨⟨kind, [], ⟨0, 0⟩, 0⟩, rfl⟩

namespace Parser

/-! ### Completion -/

/-- Whether the parser takes the tokens and may stop after them. -/
def Completes (parser : Parser) (ts : List Token) : Prop :=
  ∃ parser' tree, parser.nextAll? ts = some parser' ∧ parser'.result? = some tree

lemma Completes.cons {parser parser' : Parser} {t : Token} {ts : List Token}
    (hnext : parser.next? t = some parser') (h : parser'.Completes ts) :
    parser.Completes (t :: ts) := by
  obtain ⟨last, tree, hall, hresult⟩ := h
  exact ⟨last, tree, by rw [nextAll?_cons, hnext, Option.bind_some, hall], hresult⟩

/-- A token that opens no call ends the bodies before it. -/
lemma next?_callee_of_ne {t : Token} (h : t.kind ≠ .leftParen) (tree : Tree)
    (stack : List Frame) :
    (callee tree stack).next? t = afterExpression? t.kind (closeBodies tree stack) := by
  rw [next?]
  split
  · next hkind => exact absurd hkind h
  · rfl

/-- As long as no call is opened, it does not matter whether bodies have been
ended yet. -/
lemma Completes.of_closeBodies_eq {tree tree' : Tree} {stack stack' : List Frame}
    {ts : List Token} (h : (callee tree' stack').Completes ts)
    (heq : closeBodies tree stack = closeBodies tree' stack')
    (hts : StartsWithout .leftParen ts) : (callee tree stack).Completes ts := by
  obtain ⟨last, result, hall, hresult⟩ := h
  cases ts with
  | nil =>
      obtain rfl := Option.some.inj hall
      refine ⟨callee tree stack, result, rfl, ?_⟩
      rw [← hresult, result?, result?, heq]
  | cons t ts =>
      have hkind := hts t ts rfl
      refine ⟨last, result, ?_, hresult⟩
      rw [← hall, nextAll?_cons, nextAll?_cons, next?_callee_of_ne hkind, next?_callee_of_ne hkind,
        heq]

/-- Tokens that close the constructs on a stack, once the expression that the
innermost one misses is there. -/
def closing : List Frame → List Token
  | [] => []
  | .letBind _ :: stack =>
    (TokenOf.plain .semicolon).token :: (TokenOf.plain .number).token :: closing stack
  | .letBody _ _ :: stack => closing stack
  | .lamBody _ :: stack => closing stack
  | .paren :: stack => (TokenOf.plain .rightParen).token :: closing stack
  | .argument _ :: stack => (TokenOf.plain .rightParen).token :: closing stack

lemma startsWithout_call_closing (stack : List Frame) :
    StartsWithout .leftParen (closing stack) := by
  induction stack with
  | nil => exact startsWithout_nil _
  | cons frame stack ih =>
      cases frame with
      | letBind name => exact startsWithout_cons (.plain .semicolon) _ (by decide)
      | letBody name bind => exact ih
      | lamBody param => exact ih
      | paren => exact startsWithout_cons (.plain .rightParen) _ (by decide)
      | argument func => exact startsWithout_cons (.plain .rightParen) _ (by decide)

/-- **Open constructs can be closed.** -/
lemma completes_closing (tree : Tree) (stack : List Frame) :
    (callee tree stack).Completes (closing stack) := by
  induction stack generalizing tree with
  | nil => exact ⟨callee tree [], tree, rfl, rfl⟩
  | cons frame stack ih =>
      have hstart := startsWithout_call_closing stack
      cases frame with
      | letBind name =>
          have hbody : (callee (.num 0) (.letBody name tree :: stack)).Completes (closing stack) :=
            (ih (.letIn name tree (.num 0))).of_closeBodies_eq rfl hstart
          exact .cons rfl (.cons rfl hbody)
      | letBody name bind => exact (ih (.letIn name bind tree)).of_closeBodies_eq rfl hstart
      | lamBody param => exact (ih (.lam param tree)).of_closeBodies_eq rfl hstart
      | paren => exact .cons rfl (ih tree)
      | argument func => exact .cons rfl (ih (.app func tree))

lemma completes_expression (stack : List Frame) :
    (expression stack).Completes ((TokenOf.plain .number).token :: closing stack) :=
  .cons rfl (completes_closing (.num 0) stack)

/-- **Every parser can be completed.** -/
lemma exists_completes (parser : Parser) : ∃ ts, parser.Completes ts := by
  cases parser with
  | expression stack => exact ⟨_, completes_expression stack⟩
  | letName stack =>
      have h := completes_expression (.letBind [] :: stack)
      exact ⟨(TokenOf.plain .symbol).token :: (TokenOf.plain .equal).token :: _,
        .cons rfl (.cons rfl h)⟩
  | letEqual name stack =>
      exact ⟨(TokenOf.plain .equal).token :: _,
        .cons rfl (completes_expression (.letBind name :: stack))⟩
  | funParam stack =>
      have h := completes_expression (.lamBody [] :: stack)
      exact ⟨(TokenOf.plain .symbol).token :: (TokenOf.plain .arrow).token :: _,
        .cons rfl (.cons rfl h)⟩
  | funArrow param stack =>
      exact ⟨(TokenOf.plain .arrow).token :: _,
        .cons rfl (completes_expression (.lamBody param :: stack))⟩
  | callee tree stack => exact ⟨_, completes_closing tree stack⟩

/-! ### Runs that fail -/

/-- Whether the parser has no use for a token: it does not take it, and may not
stop if it is an end token. -/
def Rejects (parser : Parser) (t : Token) : Prop :=
  parser.next? t = none ∧ (t.kind = .eof → parser.result? = none)

/-- An end token is rejected where the parser may not stop. -/
lemma rejects_of_eof {parser : Parser} {t : Token} (ht : t.kind = .eof)
    (h : parser.result? = none) : parser.Rejects t := ⟨next?_eq_none ht, fun _ => h⟩

lemma of_finish_error {parser : Parser} {t : Token} {e : ParseError}
    (h : parser.finish t = .error e) : parser.result? = none ∧ e.token = t := by
  rw [finish] at h
  cases hresult : parser.result? with
  | none =>
      rw [hresult] at h
      cases h
      exact ⟨rfl, rfl⟩
  | some tree =>
      rw [hresult] at h
      cases h

/-- The tokens that a parser takes are gone through by its run. -/
lemma exists_run_append {parser parser' : Parser} {ts : List Token}
    (h : parser.nextAll? ts = some parser') (last : Pos) (us : List Token) :
    ∃ last', parser.run last (ts ++ us) = parser'.run last' us := by
  induction ts generalizing parser last with
  | nil =>
      obtain rfl := Option.some.inj h
      exact ⟨last, rfl⟩
  | cons t ts ih =>
      have hkind : t.kind ≠ .eof := kind_ne_eof_of_nextAll? h t List.mem_cons_self
      obtain ⟨between, hnext, hrest⟩ := Option.bind_eq_some_iff.mp h
      obtain ⟨last', hrun⟩ := ih hrest t.pos
      refine ⟨last', ?_⟩
      rw [List.cons_append, run, if_neg hkind, hnext]
      exact hrun

/-- A run does not succeed with a token that is rejected. -/
lemma Rejects.run_ne_ok {parser : Parser} {t : Token} (h : parser.Rejects t) (last : Pos)
    (us : List Token) (tree : Tree) : parser.run last (t :: us) ≠ .ok tree := by
  intro hrun
  rw [run] at hrun
  split at hrun
  · next heof =>
      rw [finish_eq_ok_iff, h.2 heof] at hrun
      cases hrun
  · rw [h.1] at hrun
    cases hrun

/-- **A run that fails rejects the token that it reports**, after it has taken
those before. Past the end of the tokens it reports an end token at the position
of the last one. -/
lemma exists_of_run_error {parser : Parser} {last : Pos} {ts : List Token} {e : ParseError}
    (h : parser.run last ts = .error e) :
    ∃ i parser', i ≤ ts.length ∧ parser.nextAll? (ts.take i) = some parser' ∧
      parser'.Rejects e.token ∧
      (ts[i]? = some e.token ∨
        i = ts.length ∧ e.token = .endAt ((ts.getLast?.map Token.pos).getD last)) := by
  induction ts generalizing parser last with
  | nil =>
      obtain ⟨hresult, htoken⟩ := of_finish_error h
      exact ⟨0, parser, Nat.le_refl _, rfl, rejects_of_eof (by rw [htoken]; rfl) hresult,
        .inr ⟨rfl, htoken⟩⟩
  | cons t ts ih =>
      rw [run] at h
      split at h
      · next heof =>
          obtain ⟨hresult, htoken⟩ := of_finish_error h
          exact ⟨0, parser, Nat.zero_le _, rfl, rejects_of_eof (by rw [htoken]; exact heof) hresult,
            .inl (by rw [htoken]; rfl)⟩
      · next hkind =>
          cases hnext : parser.next? t with
          | none =>
              rw [hnext] at h
              cases h
              exact ⟨0, parser, Nat.zero_le _, rfl, ⟨hnext, fun heof => absurd heof hkind⟩,
                .inl rfl⟩
          | some between =>
              rw [hnext] at h
              obtain ⟨i, parser', hi, hall, hrejects, htoken⟩ := ih h
              refine ⟨i + 1, parser', by simpa using hi, ?_, hrejects, ?_⟩
              · rw [List.take_succ_cons, nextAll?_cons, hnext, Option.bind_some, hall]
              · rcases htoken with htoken | ⟨hlength, htoken⟩
                · exact .inl htoken
                · refine .inr ⟨by rw [hlength, List.length_cons], ?_⟩
                  rw [htoken, List.getLast?_cons]
                  cases ts.getLast? <;> rfl

end Parser

/-! ### Errors -/

/-- **An error of the parser names the first impossible token.** It is the token
at some index, or, behind all tokens, an end token at the position of the last
one. The tokens before it are the start of a list that has a tree, but no list
that goes on with it has one. -/
theorem Tree.ofTokens_error_first_impossible {ts : List Token} {e : ParseError}
    (h : Tree.ofTokens ts = .error e) :
    ∃ i ≤ ts.length,
      (ts[i]? = some e.token ∨
        i = ts.length ∧ e.token = .endAt ((ts.getLast?.map Token.pos).getD ⟨0, 0⟩)) ∧
      (∃ us tree, Tree.ofTokens (ts.take i ++ us) = .ok tree) ∧
      ∀ us tree, Tree.ofTokens (ts.take i ++ [e.token] ++ us) ≠ .ok tree := by
  obtain ⟨i, parser, hi, hall, hrejects, htoken⟩ := Parser.exists_of_run_error h
  refine ⟨i, hi, htoken, ?_, fun us tree => ?_⟩
  · obtain ⟨us, parser', tree, hus, hresult⟩ := parser.exists_completes
    obtain ⟨last, hrun⟩ := Parser.exists_run_append hall ⟨0, 0⟩ us
    obtain ⟨last', hrun'⟩ := Parser.exists_run_append hus last []
    refine ⟨us, tree, ?_⟩
    rw [List.append_nil] at hrun'
    rw [Tree.ofTokens, hrun, hrun', Parser.run, Parser.finish_eq_ok_iff, hresult]
  · obtain ⟨last, hrun⟩ := Parser.exists_run_append hall ⟨0, 0⟩ (e.token :: us)
    rw [Tree.ofTokens, List.append_assoc, List.singleton_append, hrun]
    exact hrejects.run_ne_ok last us tree

/-- A call whose argument list is still open where the tokens end. -/
theorem Tree.ofTokens_error_first_impossible_open_call : ∃ ts : List Token, ∃ e : ParseError,
    ts = [⟨.symbol, "f", ⟨1, 1⟩, 0⟩, ⟨.leftParen, "(", ⟨1, 2⟩, 0⟩, ⟨.number, "7", ⟨1, 3⟩, 7⟩] ∧
    e = ⟨.endAt ⟨1, 3⟩, .closeArguments⟩ ∧ Tree.ofTokens ts = .error e ∧
    ∃ i ≤ ts.length,
      (ts[i]? = some e.token ∨
        i = ts.length ∧ e.token = .endAt ((ts.getLast?.map Token.pos).getD ⟨0, 0⟩)) ∧
      (∃ us tree, Tree.ofTokens (ts.take i ++ us) = .ok tree) ∧
      ∀ us tree, Tree.ofTokens (ts.take i ++ [e.token] ++ us) ≠ .ok tree := by
  have herror : Tree.ofTokens [⟨.symbol, "f", ⟨1, 1⟩, 0⟩, ⟨.leftParen, "(", ⟨1, 2⟩, 0⟩,
      ⟨.number, "7", ⟨1, 3⟩, 7⟩] = .error ⟨.endAt ⟨1, 3⟩, .closeArguments⟩ := rfl
  exact ⟨_, _, rfl, rfl, herror, Tree.ofTokens_error_first_impossible herror⟩

end FlatClosure
