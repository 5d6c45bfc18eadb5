/-
Derivations in the grammar of expressions, which `FlatClosure.Tree.Parse` gives.

A derivation is a value of one type for each nonterminal, one for the arguments
of a call and one for each of the two repetitions. Its tokens carry the proof
that they are of the kind that the grammar asks for, so every value is a
derivation.

* `TokenOf`: tokens of one kind.
* `Grammar.Expression` and its companions: derivations.
* `Expression.tokens`: the tokens that are derived; `Expression.tree`: the tree
  of a derivation, in which a call with several arguments is a chain of calls.
* `Calls.snoc`, `Arguments.snoc`: repetitions continued at their end.
* `Expression.tokens_injective`: the grammar is unambiguous. One token after an
  expression decides that it ends there, as long as this token opens no call.
-/
import Mathlib.Tactic.Common
import FlatClosure.Token.Basic
import FlatClosure.Tree.Basic

namespace FlatClosure

/-- A token of a given kind. -/
@[ext] structure TokenOf (kind : Kind) where
  token : Token
  kind_eq : token.kind = kind

/-- Tokens of different kinds are different. -/
lemma TokenOf.token_ne {kind kind' : Kind} (t : TokenOf kind) (t' : TokenOf kind')
    (h : kind ≠ kind') : t.token ≠ t'.token := fun heq => h (by rw [← t.kind_eq, heq, t'.kind_eq])

namespace Grammar

mutual

/-- Derivations of an expression. -/
inductive Expression where
  | letIn (keyword : TokenOf .letKeyword) (name : TokenOf .symbol) (equal : TokenOf .equal)
      (bind : Expression) (semicolon : TokenOf .semicolon) (body : Expression)
  | lam (keyword : TokenOf .funKeyword) (param : TokenOf .symbol) (arrow : TokenOf .arrow)
      (body : Expression)
  | application (a : Application)

/-- Derivations of an application: an atom and the calls after it. -/
inductive Application where
  | mk (atom : Atom) (calls : Calls)

/-- Derivations of a sequence of calls. -/
inductive Calls where
  | nil
  | cons (opening : TokenOf .leftParen) (args : Arguments) (closing : TokenOf .rightParen)
      (rest : Calls)

/-- Derivations of a list of arguments: the first one and the others. -/
inductive Arguments where
  | mk (first : Expression) (more : MoreArguments)

/-- Derivations of the arguments after the first one. -/
inductive MoreArguments where
  | nil
  | cons (comma : TokenOf .comma) (arg : Expression) (rest : MoreArguments)

/-- Derivations of an atom. -/
inductive Atom where
  | number (t : TokenOf .number)
  | symbol (t : TokenOf .symbol)
  | paren (opening : TokenOf .leftParen) (e : Expression) (closing : TokenOf .rightParen)

end

/-! ### Tokens and trees -/

mutual

/-- The tokens of an expression. -/
def Expression.tokens : Expression → List Token
  | .letIn keyword name equal bind semicolon body =>
    keyword.token :: name.token :: equal.token ::
      (bind.tokens ++ semicolon.token :: body.tokens)
  | .lam keyword param arrow body =>
    keyword.token :: param.token :: arrow.token :: body.tokens
  | .application a => a.tokens

/-- The tokens of an application. -/
def Application.tokens : Application → List Token
  | .mk atom calls => atom.tokens ++ calls.tokens

/-- The tokens of a sequence of calls. -/
def Calls.tokens : Calls → List Token
  | .nil => []
  | .cons opening args closing rest =>
    opening.token :: (args.tokens ++ closing.token :: rest.tokens)

/-- The tokens of a list of arguments. -/
def Arguments.tokens : Arguments → List Token
  | .mk first more => first.tokens ++ more.tokens

/-- The tokens of the arguments after the first one. -/
def MoreArguments.tokens : MoreArguments → List Token
  | .nil => []
  | .cons comma arg rest => comma.token :: (arg.tokens ++ rest.tokens)

/-- The tokens of an atom. -/
def Atom.tokens : Atom → List Token
  | .number t => [t.token]
  | .symbol t => [t.token]
  | .paren opening e closing => opening.token :: (e.tokens ++ [closing.token])

end

mutual

/-- The tree of an expression. -/
def Expression.tree : Expression → Tree
  | .letIn _ name _ bind _ body => .letIn name.token.lexeme bind.tree body.tree
  | .lam _ param _ body => .lam param.token.lexeme body.tree
  | .application a => a.tree

/-- The tree of an application: its atom, called again and again. -/
def Application.tree : Application → Tree
  | .mk atom calls => calls.apply atom.tree

/-- A tree called with the arguments of each call in turn. -/
def Calls.apply (callee : Tree) : Calls → Tree
  | .nil => callee
  | .cons _ args _ rest => rest.apply (args.apply callee)

/-- A tree called with one argument after the other. -/
def Arguments.apply (callee : Tree) : Arguments → Tree
  | .mk first more => more.apply (.app callee first.tree)

/-- A tree called with one further argument after the other. -/
def MoreArguments.apply (callee : Tree) : MoreArguments → Tree
  | .nil => callee
  | .cons _ arg rest => rest.apply (.app callee arg.tree)

/-- The tree of an atom. -/
def Atom.tree : Atom → Tree
  | .number t => .num t.token.value
  | .symbol t => .var t.token.lexeme
  | .paren _ e _ => e.tree

end

/-! ### One more call, one more argument -/

/-- The calls and one more after them. -/
def Calls.snoc : Calls → TokenOf .leftParen → Arguments → TokenOf .rightParen → Calls
  | .nil, opening, args, closing => .cons opening args closing .nil
  | .cons opening' args' closing' rest, opening, args, closing =>
    .cons opening' args' closing' (rest.snoc opening args closing)

/-- The arguments after the first one, with one more at the end. There may have been none. -/
def MoreArguments.snoc : MoreArguments → TokenOf .comma → Expression → MoreArguments
  | .nil, comma, arg => .cons comma arg .nil
  | .cons comma' arg' rest, comma, arg => .cons comma' arg' (rest.snoc comma arg)

/-- The application and one more call after it. -/
def Application.snoc : Application → TokenOf .leftParen → Arguments → TokenOf .rightParen →
    Application
  | .mk atom calls, opening, args, closing => .mk atom (calls.snoc opening args closing)

/-- The arguments of a call, with one more at the end. It comes after the first one. -/
def Arguments.snoc : Arguments → TokenOf .comma → Expression → Arguments
  | .mk first more, comma, arg => .mk first (more.snoc comma arg)

lemma Calls.tokens_snoc (calls : Calls) (opening : TokenOf .leftParen) (args : Arguments)
    (closing : TokenOf .rightParen) :
    (calls.snoc opening args closing).tokens =
      calls.tokens ++ opening.token :: (args.tokens ++ [closing.token]) := by
  fun_induction Calls.snoc calls opening args closing with
  | case1 opening args closing => rfl
  | case2 opening args closing opening' args' closing' rest ih =>
      simp only [tokens, ih, List.cons_append, List.append_assoc]

lemma Calls.apply_snoc (calls : Calls) (opening : TokenOf .leftParen) (args : Arguments)
    (closing : TokenOf .rightParen) (callee : Tree) :
    (calls.snoc opening args closing).apply callee = args.apply (calls.apply callee) := by
  fun_induction Calls.snoc calls opening args closing generalizing callee with
  | case1 opening args closing => rfl
  | case2 opening args closing opening' args' closing' rest ih => exact ih _

lemma MoreArguments.tokens_snoc (more : MoreArguments) (comma : TokenOf .comma)
    (arg : Expression) :
    (more.snoc comma arg).tokens = more.tokens ++ comma.token :: arg.tokens := by
  fun_induction MoreArguments.snoc more comma arg with
  | case1 comma arg => simp [tokens]
  | case2 comma arg comma' arg' rest ih =>
      simp only [tokens, ih, List.cons_append, List.append_assoc]

lemma MoreArguments.apply_snoc (more : MoreArguments) (comma : TokenOf .comma)
    (arg : Expression) (callee : Tree) :
    (more.snoc comma arg).apply callee = .app (more.apply callee) arg.tree := by
  fun_induction MoreArguments.snoc more comma arg generalizing callee with
  | case1 comma arg => rfl
  | case2 comma arg comma' arg' rest ih => exact ih _

@[simp] lemma Application.tokens_snoc (a : Application) (opening : TokenOf .leftParen)
    (args : Arguments) (closing : TokenOf .rightParen) :
    (a.snoc opening args closing).tokens =
      a.tokens ++ opening.token :: (args.tokens ++ [closing.token]) := by
  cases a with
  | mk atom calls => simp only [snoc, tokens, Calls.tokens_snoc, List.append_assoc]

@[simp] lemma Application.tree_snoc (a : Application) (opening : TokenOf .leftParen)
    (args : Arguments) (closing : TokenOf .rightParen) :
    (a.snoc opening args closing).tree = args.apply a.tree := by
  cases a with
  | mk atom calls => exact calls.apply_snoc opening args closing atom.tree

@[simp] lemma Arguments.tokens_snoc (args : Arguments) (comma : TokenOf .comma)
    (arg : Expression) :
    (args.snoc comma arg).tokens = args.tokens ++ comma.token :: arg.tokens := by
  cases args with
  | mk first more => simp only [snoc, tokens, MoreArguments.tokens_snoc, List.append_assoc]

@[simp] lemma Arguments.apply_snoc (args : Arguments) (comma : TokenOf .comma)
    (arg : Expression) (callee : Tree) :
    (args.snoc comma arg).apply callee = .app (args.apply callee) arg.tree := by
  cases args with
  | mk first more => exact more.apply_snoc comma arg _

/-! ### Unambiguity -/

/-- Whether the tokens do not start with one of a kind. -/
def StartsWithout (kind : Kind) (ts : List Token) : Prop := ∀ t rest, ts = t :: rest → t.kind ≠ kind

lemma startsWithout_nil (kind : Kind) : StartsWithout kind [] := fun _ _ h => absurd h (by simp)

lemma startsWithout_cons {kind kind' : Kind} (t : TokenOf kind') (rest : List Token)
    (h : kind' ≠ kind) : StartsWithout kind (t.token :: rest) := by
  intro t' rest' heq hkind
  obtain ⟨rfl, rfl⟩ := List.cons.inj heq
  exact h (t.kind_eq.symm.trans hkind)

/-- An atom starts with a number, a symbol or an opening parenthesis. -/
lemma Atom.exists_tokens_eq (a : Atom) : ∃ t rest, a.tokens = t :: rest ∧
    (t.kind = .number ∨ t.kind = .symbol ∨ t.kind = .leftParen) := by
  cases a with
  | number t => exact ⟨t.token, [], rfl, .inl t.kind_eq⟩
  | symbol t => exact ⟨t.token, [], rfl, .inr (.inl t.kind_eq)⟩
  | paren opening e closing => exact ⟨opening.token, _, rfl, .inr (.inr opening.kind_eq)⟩

/-- An application does not start with a keyword. -/
lemma Application.tokens_append_ne {kind : Kind} (hkind : kind.isKeyword) (a : Application)
    (t : TokenOf kind) (r r' : List Token) : t.token :: r ≠ a.tokens ++ r' := by
  intro heq
  cases a with
  | mk atom calls =>
      obtain ⟨first, rest, htokens, hfirst⟩ := atom.exists_tokens_eq
      rw [tokens, htokens, List.cons_append, List.cons_append] at heq
      obtain ⟨rfl, -⟩ := List.cons.inj heq
      rw [t.kind_eq] at hfirst
      rcases hfirst with rfl | rfl | rfl <;> exact absurd hkind (by decide)

/-- After an argument, what is left of its list opens no call. -/
lemma MoreArguments.startsWithout_call (more : MoreArguments) (closing : TokenOf .rightParen)
    (r : List Token) : StartsWithout .leftParen (more.tokens ++ closing.token :: r) := by
  cases more with
  | nil => exact startsWithout_cons closing _ (by decide)
  | cons comma arg rest => exact startsWithout_cons comma _ (by decide)

-- Two derivations whose tokens start alike are compared token by token. After
-- an expression, and after a sequence of calls, the next token tells that no
-- call follows; after a list of arguments it is a closing parenthesis, which
-- tells that no argument follows.
mutual

lemma Expression.eq_of_tokens_append : ∀ (d d' : Expression) {r r' : List Token},
    StartsWithout .leftParen r → StartsWithout .leftParen r' →
    d.tokens ++ r = d'.tokens ++ r' → d = d' ∧ r = r'
  | .letIn keyword name equal bind semicolon body,
    .letIn keyword' name' equal' bind' semicolon' body', r, r', hr, hr', heq => by
      simp only [Expression.tokens, List.cons_append, List.append_assoc, List.cons.injEq] at heq
      obtain ⟨hkeyword, hname, hequal, heq⟩ := heq
      obtain ⟨rfl, hrest⟩ := bind.eq_of_tokens_append bind'
        (startsWithout_cons semicolon _ (by decide))
        (startsWithout_cons semicolon' _ (by decide)) heq
      obtain ⟨hsemicolon, hbody⟩ := List.cons.inj hrest
      obtain ⟨rfl, rfl⟩ := body.eq_of_tokens_append body' hr hr' hbody
      rw [TokenOf.ext hkeyword, TokenOf.ext hname, TokenOf.ext hequal, TokenOf.ext hsemicolon]
      exact ⟨rfl, rfl⟩
  | .lam keyword param arrow body, .lam keyword' param' arrow' body', r, r', hr, hr', heq => by
      simp only [Expression.tokens, List.cons_append, List.cons.injEq] at heq
      obtain ⟨hkeyword, hparam, harrow, heq⟩ := heq
      obtain ⟨rfl, rfl⟩ := body.eq_of_tokens_append body' hr hr' heq
      rw [TokenOf.ext hkeyword, TokenOf.ext hparam, TokenOf.ext harrow]
      exact ⟨rfl, rfl⟩
  | .application a, .application a', r, r', hr, hr', heq => by
      obtain ⟨rfl, rfl⟩ := a.eq_of_tokens_append a' hr hr' heq
      exact ⟨rfl, rfl⟩
  | .letIn keyword .., .lam keyword' .., r, r', hr, hr', heq =>
      absurd (List.cons.inj heq).1 (keyword.token_ne keyword' (by decide))
  | .lam keyword .., .letIn keyword' .., r, r', hr, hr', heq =>
      absurd (List.cons.inj heq).1 (keyword.token_ne keyword' (by decide))
  | .letIn keyword .., .application a, r, r', hr, hr', heq =>
      absurd heq (a.tokens_append_ne rfl keyword _ r')
  | .lam keyword .., .application a, r, r', hr, hr', heq =>
      absurd heq (a.tokens_append_ne rfl keyword _ r')
  | .application a, .letIn keyword .., r, r', hr, hr', heq =>
      absurd heq.symm (a.tokens_append_ne rfl keyword _ r)
  | .application a, .lam keyword .., r, r', hr, hr', heq =>
      absurd heq.symm (a.tokens_append_ne rfl keyword _ r)

lemma Application.eq_of_tokens_append : ∀ (a a' : Application) {r r' : List Token},
    StartsWithout .leftParen r → StartsWithout .leftParen r' →
    a.tokens ++ r = a'.tokens ++ r' → a = a' ∧ r = r'
  | .mk atom calls, .mk atom' calls', r, r', hr, hr', heq => by
      simp only [Application.tokens, List.append_assoc] at heq
      obtain ⟨rfl, hcalls⟩ := atom.eq_of_tokens_append atom' heq
      obtain ⟨rfl, rfl⟩ := calls.eq_of_tokens_append calls' hr hr' hcalls
      exact ⟨rfl, rfl⟩

lemma Calls.eq_of_tokens_append : ∀ (c c' : Calls) {r r' : List Token},
    StartsWithout .leftParen r → StartsWithout .leftParen r' →
    c.tokens ++ r = c'.tokens ++ r' → c = c' ∧ r = r'
  | .nil, .nil, r, r', hr, hr', heq => ⟨rfl, heq⟩
  | .cons opening args closing rest, .cons opening' args' closing' rest', r, r', hr, hr', heq => by
      simp only [Calls.tokens, List.cons_append, List.append_assoc, List.cons.injEq] at heq
      obtain ⟨hopening, heq⟩ := heq
      obtain ⟨rfl, hclosing, hrest⟩ := args.eq_of_tokens_append args' closing closing' heq
      obtain ⟨rfl, rfl⟩ := rest.eq_of_tokens_append rest' hr hr' hrest
      rw [TokenOf.ext hopening, TokenOf.ext hclosing]
      exact ⟨rfl, rfl⟩
  | .nil, .cons opening' .., r, r', hr, hr', heq => absurd opening'.kind_eq (hr _ _ heq)
  | .cons opening .., .nil, r, r', hr, hr', heq => absurd opening.kind_eq (hr' _ _ heq.symm)

lemma Arguments.eq_of_tokens_append : ∀ (args args' : Arguments)
    (closing closing' : TokenOf .rightParen) {r r' : List Token},
    args.tokens ++ closing.token :: r = args'.tokens ++ closing'.token :: r' →
    args = args' ∧ closing.token = closing'.token ∧ r = r'
  | .mk first more, .mk first' more', closing, closing', r, r', heq => by
      simp only [Arguments.tokens, List.append_assoc] at heq
      obtain ⟨rfl, hmore⟩ := first.eq_of_tokens_append first' (more.startsWithout_call closing r)
        (more'.startsWithout_call closing' r') heq
      obtain ⟨rfl, hclosing⟩ := more.eq_of_tokens_append more' closing closing' hmore
      exact ⟨rfl, hclosing⟩

lemma MoreArguments.eq_of_tokens_append : ∀ (more more' : MoreArguments)
    (closing closing' : TokenOf .rightParen) {r r' : List Token},
    more.tokens ++ closing.token :: r = more'.tokens ++ closing'.token :: r' →
    more = more' ∧ closing.token = closing'.token ∧ r = r'
  | .nil, .nil, closing, closing', r, r', heq => ⟨rfl, List.cons.inj heq⟩
  | .cons comma arg rest, .cons comma' arg' rest', closing, closing', r, r', heq => by
      simp only [MoreArguments.tokens, List.cons_append, List.append_assoc, List.cons.injEq] at heq
      obtain ⟨hcomma, heq⟩ := heq
      obtain ⟨rfl, hrest⟩ := arg.eq_of_tokens_append arg' (rest.startsWithout_call closing r)
        (rest'.startsWithout_call closing' r') heq
      obtain ⟨rfl, hclosing⟩ := rest.eq_of_tokens_append rest' closing closing' hrest
      rw [TokenOf.ext hcomma]
      exact ⟨rfl, hclosing⟩
  | .nil, .cons comma' .., closing, closing', r, r', heq =>
      absurd (List.cons.inj heq).1 (closing.token_ne comma' (by decide))
  | .cons comma .., .nil, closing, closing', r, r', heq =>
      absurd (List.cons.inj heq).1 (comma.token_ne closing' (by decide))

lemma Atom.eq_of_tokens_append : ∀ (a a' : Atom) {r r' : List Token},
    a.tokens ++ r = a'.tokens ++ r' → a = a' ∧ r = r'
  | .number t, .number t', r, r', heq => by
      obtain ⟨ht, rfl⟩ := List.cons.inj heq
      rw [TokenOf.ext ht]
      exact ⟨rfl, rfl⟩
  | .symbol t, .symbol t', r, r', heq => by
      obtain ⟨ht, rfl⟩ := List.cons.inj heq
      rw [TokenOf.ext ht]
      exact ⟨rfl, rfl⟩
  | .paren opening e closing, .paren opening' e' closing', r, r', heq => by
      simp only [Atom.tokens, List.cons_append, List.append_assoc, List.cons.injEq,
        List.nil_append] at heq
      obtain ⟨hopening, heq⟩ := heq
      obtain ⟨rfl, hrest⟩ := e.eq_of_tokens_append e' (startsWithout_cons closing _ (by decide))
        (startsWithout_cons closing' _ (by decide)) heq
      obtain ⟨hclosing, rfl⟩ := List.cons.inj hrest
      rw [TokenOf.ext hopening, TokenOf.ext hclosing]
      exact ⟨rfl, rfl⟩
  | .number t, .symbol t', r, r', heq => absurd (List.cons.inj heq).1 (t.token_ne t' (by decide))
  | .symbol t, .number t', r, r', heq => absurd (List.cons.inj heq).1 (t.token_ne t' (by decide))
  | .number t, .paren opening' .., r, r', heq =>
      absurd (List.cons.inj heq).1 (t.token_ne opening' (by decide))
  | .symbol t, .paren opening' .., r, r', heq =>
      absurd (List.cons.inj heq).1 (t.token_ne opening' (by decide))
  | .paren opening .., .number t', r, r', heq =>
      absurd (List.cons.inj heq).1 (opening.token_ne t' (by decide))
  | .paren opening .., .symbol t', r, r', heq =>
      absurd (List.cons.inj heq).1 (opening.token_ne t' (by decide))

end

/-- **The grammar is unambiguous.** -/
lemma Expression.tokens_injective : Function.Injective Expression.tokens := by
  intro d d' heq
  refine (d.eq_of_tokens_append d' (startsWithout_nil _) (startsWithout_nil _) ?_).1
  rw [heq]

end Grammar

end FlatClosure
