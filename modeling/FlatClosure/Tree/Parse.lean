/-
Parsing: from tokens to a tree.

The grammar is

    expression  := LET SYMBOL EQUAL expression SEMICOLON expression
                 | FUN SYMBOL ARROW expression
                 | application
    application := atom (LEFT_PAREN expression (COMMA expression)* RIGHT_PAREN)*
    atom        := NUMBER | SYMBOL | LEFT_PAREN expression RIGHT_PAREN

and a call with several arguments is a chain of calls with one.

The parser reads one token at a time and keeps the constructs that are still
open on a stack, so it is one pass over the list.

* `Frame`: an open construct with the place where an expression is missing.
* `Parser`: the stack and what may come next.
* `Parser.next?`: the parser after one more token, if it takes the token.
* `Parser.result?`: the tree, if the tokens may end here.
* `Parser.expected`: what to say when a token is not taken.
* `Tree.ofTokens`: all tokens up to the first end token. A list without one
  ends at the position of its last token.
-/
import FlatClosure.Token.Basic
import FlatClosure.Tree.Basic

namespace FlatClosure

/-! ### Errors -/

/-- What the parser would have accepted at the token where it stopped. -/
inductive ParseError.Cause where
  | letName
  | letEqual
  | letSemicolon
  | funParam
  | funArrow
  | closeArguments
  | closeParen
  | expression
  | endOfInput
  /-- Another reason, in words. -/
  | other (message : Text)
  deriving DecidableEq, Inhabited

/-- The words for what was expected. -/
def ParseError.Cause.message : ParseError.Cause → Text
  | letName => "Expect name after `let`."
  | letEqual => "Expect `=` after name in let binding."
  | letSemicolon => "Expect `;` after let binding."
  | funParam => "Expect parameter name after `fun`."
  | funArrow => "Expect `=>` after lambda parameter."
  | closeArguments => "Missing closing `)` after argument list."
  | closeParen => "Expect `)` after parenthesized expression."
  | expression => "Expect expression."
  | endOfInput => "Unexpected token after end of expression."
  | other message => message

/-- The parser could not accept `token`. -/
structure ParseError where
  token : Token
  cause : ParseError.Cause
  deriving DecidableEq, Inhabited

/-- The message of a parse error. -/
def ParseError.message (e : ParseError) : Text :=
  "parse-error: " ++ e.token.pos.render ++ ": " ++ e.cause.message ++
    " (found " ++ e.token.describe ++ ")"

/-! ### The parser -/

/-- A construct whose next expression is still being read. -/
inductive Frame where
  /-- `let name = □` -/
  | letBind (name : Text)
  /-- `let name = bind; □` -/
  | letBody (name : Text) (bind : Tree)
  /-- `fun param => □` -/
  | lamBody (param : Text)
  /-- `(□` -/
  | paren
  /-- `func(□` -/
  | argument (func : Tree)
  deriving DecidableEq

/-- What a parser has read: the open constructs, the innermost first, and what
has to come next. -/
inductive Parser where
  /-- An expression has to start here. -/
  | expression (stack : List Frame)
  /-- After `let`. -/
  | letName (stack : List Frame)
  /-- After `let name`. -/
  | letEqual (name : Text) (stack : List Frame)
  /-- After `fun`. -/
  | funParam (stack : List Frame)
  /-- After `fun param`. -/
  | funArrow (param : Text) (stack : List Frame)
  /-- After an atom or a call, which a further call may follow. -/
  | callee (tree : Tree) (stack : List Frame)
  deriving DecidableEq

namespace Parser

/-- Bodies end where their expression ends: the tree they make, and the stack
below them. -/
def closeBodies : Tree → List Frame → Tree × List Frame
  | tree, .letBody name bind :: stack => closeBodies (.letIn name bind tree) stack
  | tree, .lamBody param :: stack => closeBodies (.lam param tree) stack
  | tree, stack => (tree, stack)

/-- The parser after a token that ends an expression: the innermost open
construct, below the bodies that end with it, has to take the token. -/
def afterExpression? (kind : Kind) : Tree × List Frame → Option Parser
  | (bind, .letBind name :: stack) =>
    match kind with
    | .semicolon => some (.expression (.letBody name bind :: stack))
    | _ => none
  | (tree, .paren :: stack) =>
    match kind with
    | .rightParen => some (.callee tree stack)
    | _ => none
  | (arg, .argument func :: stack) =>
    match kind with
    | .comma => some (.expression (.argument (.app func arg) :: stack))
    | .rightParen => some (.callee (.app func arg) stack)
    | _ => none
  | _ => none

/-- The parser after one more token, if it takes the token. -/
def next? (parser : Parser) (token : Token) : Option Parser :=
  match parser with
  | .expression stack =>
    match token.kind with
    | .letKeyword => some (.letName stack)
    | .funKeyword => some (.funParam stack)
    | .number => some (.callee (.num token.value) stack)
    | .symbol => some (.callee (.var token.lexeme) stack)
    | .leftParen => some (.expression (.paren :: stack))
    | _ => none
  | .letName stack =>
    match token.kind with
    | .symbol => some (.letEqual token.lexeme stack)
    | _ => none
  | .letEqual name stack =>
    match token.kind with
    | .equal => some (.expression (.letBind name :: stack))
    | _ => none
  | .funParam stack =>
    match token.kind with
    | .symbol => some (.funArrow token.lexeme stack)
    | _ => none
  | .funArrow param stack =>
    match token.kind with
    | .arrow => some (.expression (.lamBody param :: stack))
    | _ => none
  | .callee tree stack =>
    match token.kind with
    | .leftParen => some (.expression (.argument tree :: stack))
    | kind => afterExpression? kind (closeBodies tree stack)

/-- The tree, if the tokens may end here. -/
def result? : Parser → Option Tree
  | .callee tree stack =>
    match closeBodies tree stack with
    | (tree, []) => some tree
    | _ => none
  | _ => none

/-- What to say when a token is not taken. -/
def expected : Parser → ParseError.Cause
  | .expression _ => .expression
  | .letName _ => .letName
  | .letEqual _ _ => .letEqual
  | .funParam _ => .funParam
  | .funArrow _ _ => .funArrow
  | .callee tree stack =>
    match (closeBodies tree stack).2 with
    | .letBind _ :: _ => .letSemicolon
    | .paren :: _ => .closeParen
    | .argument _ :: _ => .closeArguments
    | _ => .endOfInput

/-- The tree at the end token, or the error of ending too early. -/
def finish (parser : Parser) (token : Token) : Except ParseError Tree :=
  match parser.result? with
  | some tree => .ok tree
  | none => .error ⟨token, parser.expected⟩

/-- The tree of the tokens up to the first end token. Where there is none, the
tokens end at the position of the last one. -/
def run (parser : Parser) (last : Pos) : List Token → Except ParseError Tree
  | [] => parser.finish (.endAt last)
  | token :: tokens =>
    if token.kind = .eof then parser.finish token
    else
      match parser.next? token with
      | some parser => run parser token.pos tokens
      | none => .error ⟨token, parser.expected⟩

end Parser

/-- The tree of a list of tokens. -/
def Tree.ofTokens (tokens : List Token) : Except ParseError Tree :=
  (Parser.expression []).run ⟨0, 0⟩ tokens

end FlatClosure
