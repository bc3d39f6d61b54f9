import TreeWalk.Tree.Parse

/-!
# The grammar

The grammar of programs, over the kinds of tokens.  A derivation is a value of `Phrase`, with one
constructor for each production, so that two derivations of the same tokens can be compared.  A
derivation spells tokens and has a tree; parentheses around an expression leave no node in it.

The grammar alone is ambiguous: statements need no semicolon between them, and `(` and `-` both
start and continue an expression.  A derivation is *separated* when it never makes use of this
freedom: what follows a statement without a semicolon starts with neither of the two.

## Main definitions

* `Level`, `Level.operators` — the levels of operators between operands, loosest first.
* `Symbol`, `Phrase` — the symbols of the grammar and their derivations.
* `Phrase.tokens`, `Phrase.tree` — what a derivation spells and the tree it stands for.
* `Phrase.Separated` — no statement runs on where another one could start.

## Main results

* `Phrase.exists_first` — the tokens with which the derivations of a symbol start.
-/

namespace TreeWalk

namespace Grammar

/-- A token of one of the given kinds. -/
abbrev Terminal (kinds : List Kind) := {token : Token // token.kind ∈ kinds}

/-- A `token` of the given `kind` as a `Terminal`. -/
def Terminal.of {token : Token} {kind : Kind} (h : token.kind = kind) : Terminal [kind] :=
  ⟨token, List.mem_singleton.mpr h⟩

theorem Terminal.kind_eq {kind : Kind} (token : Terminal [kind]) : token.1.kind = kind := by
  simpa using token.2

theorem Terminal.kind_mem {kind : Kind} (token : Terminal [kind]) {kinds : List Kind}
    (h : kind ∈ kinds) : token.1.kind ∈ kinds := by
  rw [token.kind_eq]
  exact h

/-- If a text starts with a `Terminal` of some `kind`, its first token is of that kind. -/
theorem Terminal.kind_of_cons_eq {kind : Kind} (terminal : Terminal [kind]) {token : Token}
    {rest rest' : List Token} (h : token :: rest = terminal.1 :: rest') : token.kind = kind := by
  rw [(List.cons.inj h).1]
  exact terminal.kind_eq

/-- A level of expressions, the loosest first. -/
inductive Level
  /-- Comparisons of equality. -/
  | equals
  /-- Comparisons of order. -/
  | order
  /-- Sums. -/
  | sum
  /-- Products. -/
  | product
  /-- Operands with operators in front of them. -/
  | unary
  deriving DecidableEq, Repr

namespace Level

/-- The operators between the operands of a level. -/
def operators : Level → List Kind
  | equals => [.equalEqual, .bangEqual]
  | order => [.less, .greater]
  | sum => [.plus, .minus]
  | product => [.star, .slash]
  | unary => []

/-- The level of the operands of a level. -/
def operand : Level → Level
  | equals => order
  | order => sum
  | sum => product
  | product => unary
  | unary => unary

/-- The rank of the operators of a level, looser ones first. -/
def rank : Level → Nat
  | equals => 1
  | order => 2
  | sum => 3
  | product => 4
  | unary => 5

theorem rank_le (level : Level) : level.rank ≤ 5 := by
  cases level <;> decide

theorem eq_of_rank_eq {level level' : Level} (h : level.rank = level'.rank) : level = level' := by
  revert h
  cases level <;> cases level' <;> decide

theorem rank_operand {level : Level} (h : level ≠ .unary) :
    level.operand.rank = level.rank + 1 := by
  cases level with
  | unary => exact absurd rfl h
  | _ => rfl

/-- The `operators` of a level bind at its `rank`. -/
theorem rank_of_mem_operators {level : Level} {kind : Kind} (h : kind ∈ level.operators) :
    kind.precedence.rank = level.rank := by
  cases level <;> simp only [operators, List.mem_cons, List.not_mem_nil, or_false] at h
  all_goals rcases h with rfl | rfl <;> rfl

end Level

/-- The symbols of the grammar. -/
inductive Symbol
  /-- Statements in a row; a program is one of these. -/
  | stmts
  /-- A statement with its semicolon, if it has one. -/
  | stmt
  /-- A statement without its semicolon. -/
  | clause
  /-- Statements in braces. -/
  | block
  /-- The `else` of a choice, if it has one. -/
  | alternative
  /-- An expression of a level. -/
  | expr (level : Level)
  /-- The operators of a level and their right operands, in a row. -/
  | chain (level : Level)
  /-- An operand with the calls behind it. -/
  | primary
  /-- Calls in a row. -/
  | calls
  /-- An operand. -/
  | atom
  /-- The arguments of a call. -/
  | args
  /-- The arguments behind the first one, each with a comma in front. -/
  | moreArgs

/-- The parameters of a function: names with commas in between. -/
inductive Params
  /-- No parameter. -/
  | none
  /-- A first parameter and more, each with a comma in front. -/
  | some (first : Terminal [.ident]) (more : List (Terminal [.comma] × Terminal [.ident]))

/-- A derivation from a symbol of the grammar. -/
inductive Phrase : Symbol → Type
  /-- No more statements. -/
  | done : Phrase .stmts
  /-- A statement and more. -/
  | next (head : Phrase .stmt) (tail : Phrase .stmts) : Phrase .stmts
  /-- A statement, with a semicolon or without. -/
  | stmt (clause : Phrase .clause) (stop : Option (Terminal [.semicolon])) : Phrase .stmt
  /-- `let name = value`. -/
  | letClause (word : Terminal [.letWord]) (name : Terminal [.ident]) (sign : Terminal [.equal])
      (value : Phrase (.expr .equals)) : Phrase .clause
  /-- `return value`. -/
  | returnClause (word : Terminal [.returnWord]) (value : Phrase (.expr .equals)) :
      Phrase .clause
  /-- An expression as a statement. -/
  | exprClause (value : Phrase (.expr .equals)) : Phrase .clause
  /-- Statements in braces. -/
  | block (opening : Terminal [.openBrace]) (body : Phrase .stmts)
      (closing : Terminal [.closeBrace]) : Phrase .block
  /-- No `else`. -/
  | noElse : Phrase .alternative
  /-- `else` and its block. -/
  | elseBlock (word : Terminal [.elseWord]) (body : Phrase .block) : Phrase .alternative
  /-- A first operand and the operators of the level behind it. -/
  | binary {level : Level} (loose : level ≠ .unary) (first : Phrase (.expr level.operand))
      (more : Phrase (.chain level)) : Phrase (.expr level)
  /-- No more operators of the level. -/
  | chainEnd {level : Level} : Phrase (.chain level)
  /-- An operator of the level, its right operand, and more. -/
  | chainNext {level : Level} (op : Terminal level.operators)
      (right : Phrase (.expr level.operand)) (more : Phrase (.chain level)) : Phrase (.chain level)
  /-- An operator before its operand. -/
  | prefixed (op : Terminal [.bang, .minus]) (right : Phrase (.expr .unary)) : Phrase (.expr .unary)
  /-- No operator in front. -/
  | unprefixed (inner : Phrase .primary) : Phrase (.expr .unary)
  /-- An operand and the calls behind it. -/
  | primary (atom : Phrase .atom) (calls : Phrase .calls) : Phrase .primary
  /-- No more calls. -/
  | noCall : Phrase .calls
  /-- A call and more. -/
  | nextCall (opening : Terminal [.openParen]) (args : Phrase .args)
      (closing : Terminal [.closeParen]) (more : Phrase .calls) : Phrase .calls
  /-- A name. -/
  | ident (name : Terminal [.ident]) : Phrase .atom
  /-- A run of digits that spells a number within range. -/
  | number (digits : Terminal [.int]) (value : Float)
      (spelled : Number.nearest? (Parse.digitsValue digits.1.lexeme) 1 = some value) : Phrase .atom
  /-- A quoted text. -/
  | text (token : Terminal [.string]) : Phrase .atom
  /-- The word `true`. -/
  | yesWord (word : Terminal [.trueWord]) : Phrase .atom
  /-- The word `false`. -/
  | noWord (word : Terminal [.falseWord]) : Phrase .atom
  /-- An expression in parentheses. -/
  | group (opening : Terminal [.openParen]) (inner : Phrase (.expr .equals))
      (closing : Terminal [.closeParen]) : Phrase .atom
  /-- A choice. -/
  | ifElse (word : Terminal [.ifWord]) (opening : Terminal [.openParen])
      (cond : Phrase (.expr .equals)) (closing : Terminal [.closeParen]) (yes : Phrase .block)
      (no : Phrase .alternative) : Phrase .atom
  /-- A function. -/
  | function (word : Terminal [.fnWord]) (opening : Terminal [.openParen]) (params : Params)
      (closing : Terminal [.closeParen]) (body : Phrase .block) : Phrase .atom
  /-- No argument. -/
  | noArgs : Phrase .args
  /-- A first argument and more. -/
  | someArgs (first : Phrase (.expr .equals)) (more : Phrase .moreArgs) : Phrase .args
  /-- No more arguments. -/
  | lastArg : Phrase .moreArgs
  /-- A comma, an argument, and more. -/
  | nextArg (comma : Terminal [.comma]) (value : Phrase (.expr .equals))
      (more : Phrase .moreArgs) : Phrase .moreArgs

/-! ### What a derivation spells -/

/-- The tokens that parameters spell. -/
def Params.tokens : Params → List Token
  | none => []
  | some first more => first.1 :: more.flatMap fun (comma, name) => [comma.1, name.1]

namespace Phrase

/-- The tokens that a derivation spells. -/
def tokens {s : Symbol} : Phrase s → List Token
  | done => []
  | next head tail => head.tokens ++ tail.tokens
  | stmt clause stop => clause.tokens ++ (stop.map (·.1)).toList
  | letClause word name sign value => word.1 :: name.1 :: sign.1 :: value.tokens
  | returnClause word value => word.1 :: value.tokens
  | exprClause value => value.tokens
  | block opening body closing => opening.1 :: (body.tokens ++ [closing.1])
  | noElse => []
  | elseBlock word body => word.1 :: body.tokens
  | binary _ first more => first.tokens ++ more.tokens
  | chainEnd => []
  | chainNext op right more => op.1 :: (right.tokens ++ more.tokens)
  | prefixed op right => op.1 :: right.tokens
  | unprefixed inner => inner.tokens
  | primary atom calls => atom.tokens ++ calls.tokens
  | noCall => []
  | nextCall opening args closing more =>
    opening.1 :: (args.tokens ++ closing.1 :: more.tokens)
  | ident name => [name.1]
  | number digits _ _ => [digits.1]
  | text token => [token.1]
  | yesWord word => [word.1]
  | noWord word => [word.1]
  | group opening inner closing => opening.1 :: (inner.tokens ++ [closing.1])
  | ifElse word opening cond closing yes no =>
    word.1 :: opening.1 :: (cond.tokens ++ closing.1 :: (yes.tokens ++ no.tokens))
  | function word opening params closing body =>
    word.1 :: opening.1 :: (params.tokens ++ closing.1 :: body.tokens)
  | noArgs => []
  | someArgs first more => first.tokens ++ more.tokens
  | lastArg => []
  | nextArg comma value more => comma.1 :: (value.tokens ++ more.tokens)

end Phrase

/-! ### The tree of a derivation -/

/-- What a derivation stands for: a node, several nodes, or what becomes of the operand in front
of it. -/
@[reducible] def Symbol.Tree : Symbol → Type
  | stmts | args | moreArgs => List Node
  | chain _ | calls => Node → Node
  | _ => Node

/-- The `Ident` that a token stands for. -/
def Terminal.ident {kinds : List Kind} (token : Terminal kinds) : Ident :=
  ⟨token.1, token.1.lexeme⟩

/-- The names of parameters. -/
def Params.idents : Params → List Ident
  | none => []
  | some first more => first.ident :: more.map fun (_, name) => name.ident

namespace Phrase

/-- The tree of a derivation.  Operators of one level group to the left: each takes everything of
the level in front of it as its left operand. -/
def tree {s : Symbol} : Phrase s → s.Tree
  | done => []
  | next head tail => head.tree :: tail.tree
  | stmt clause _ => clause.tree
  | letClause word name _ value => .letStmt word.1 name.ident value.tree
  | returnClause word value => .returnStmt word.1 value.tree
  | exprClause value => .exprStmt (value.tokens.headD default) value.tree
  | block opening body _ => .block opening.1 body.tree
  | noElse => .hole
  | elseBlock _ body => body.tree
  | binary _ first more => more.tree first.tree
  | chainEnd => id
  | chainNext op right more => fun left =>
    more.tree (.infixOp op.1 op.1.lexeme left right.tree)
  | prefixed op right => .prefixOp op.1 op.1.lexeme right.tree
  | unprefixed inner => inner.tree
  | primary atom calls => calls.tree atom.tree
  | noCall => id
  | nextCall opening args _ more => fun callee => more.tree (.call opening.1 callee args.tree)
  | ident name => .ident name.ident
  | number digits value _ => .number digits.1 value
  | text token => .text token.1 token.1.lexeme
  | yesWord word => .boolean word.1 true
  | noWord word => .boolean word.1 false
  | group _ inner _ => inner.tree
  | ifElse word _ cond _ yes no => .ifElse word.1 cond.tree yes.tree no.tree
  | function word _ params _ body => .function word.1 params.idents body.tree
  | noArgs => []
  | someArgs first more => first.tree :: more.tree
  | lastArg => []
  | nextArg _ value more => value.tree :: more.tree

/-! ### Separated derivations -/

/-- Whether a statement is closed by a semicolon. -/
def closed : Phrase .stmt → Bool
  | stmt _ stop => stop.isSome

/-- No statement runs on where another one could start: what follows a statement that no
semicolon closes starts neither with `(` nor with `-`. -/
def Separated {s : Symbol} : Phrase s → Prop
  | next head tail => head.Separated ∧ tail.Separated ∧
    (head.closed ∨ ∀ token ∈ tail.tokens.head?, token.kind ∉ [.openParen, .minus])
  | stmt clause _ => clause.Separated
  | letClause _ _ _ value => value.Separated
  | returnClause _ value => value.Separated
  | exprClause value => value.Separated
  | block _ body _ => body.Separated
  | elseBlock _ body => body.Separated
  | binary _ first more => first.Separated ∧ more.Separated
  | chainNext _ right more => right.Separated ∧ more.Separated
  | prefixed _ right => right.Separated
  | unprefixed inner => inner.Separated
  | primary atom calls => atom.Separated ∧ calls.Separated
  | nextCall _ args _ more => args.Separated ∧ more.Separated
  | group _ inner _ => inner.Separated
  | ifElse _ _ cond _ yes no => cond.Separated ∧ yes.Separated ∧ no.Separated
  | function _ _ _ _ body => body.Separated
  | someArgs first more => first.Separated ∧ more.Separated
  | nextArg _ value more => value.Separated ∧ more.Separated
  | done | noElse | chainEnd | noCall | noArgs | lastArg => True
  | ident _ | number .. | text _ | yesWord _ | noWord _ => True

end Phrase

/-! ### First tokens -/

/-- The kinds of the tokens that start an operand. -/
def operandStarts : List Kind :=
  [.ident, .int, .string, .trueWord, .falseWord, .openParen, .ifWord, .fnWord]

/-- The kinds of the tokens that start an expression. -/
def exprStarts : List Kind := .bang :: .minus :: operandStarts

/-- The kinds of the tokens that start a statement. -/
def stmtStarts : List Kind := .letWord :: .returnWord :: exprStarts

/-- The kinds of the tokens with which the derivations of a symbol start; none for a symbol that
can spell no token at all. -/
def Symbol.starts : Symbol → List Kind
  | stmt | clause => stmtStarts
  | block => [.openBrace]
  | expr _ => exprStarts
  | primary | atom => operandStarts
  | _ => []

namespace Phrase

/-- Every derivation of a symbol that cannot be empty starts with one of `Symbol.starts`. -/
theorem exists_first {s : Symbol} (d : Phrase s) (h : s.starts ≠ []) :
    ∃ first rest, d.tokens = first :: rest ∧ first.kind ∈ s.starts := by
  -- either the production starts with a token, or its first part cannot be empty either
  induction d with
  | stmt clause stop ih =>
    obtain ⟨first, rest, htokens, hfirst⟩ := ih (by decide)
    exact ⟨first, rest ++ (stop.map (·.1)).toList, by simp [tokens, htokens], hfirst⟩
  | letClause word => exact ⟨_, _, rfl, word.kind_mem (by decide)⟩
  | returnClause word => exact ⟨_, _, rfl, word.kind_mem (by decide)⟩
  | exprClause value ih =>
    obtain ⟨first, rest, htokens, hfirst⟩ := ih (by simp [Symbol.starts, exprStarts])
    exact ⟨first, rest, htokens, List.mem_cons_of_mem _ (List.mem_cons_of_mem _ hfirst)⟩
  | block opening => exact ⟨_, _, rfl, opening.2⟩
  | binary _ first more ih =>
    obtain ⟨token, rest, htokens, hfirst⟩ := ih (by simp [Symbol.starts, exprStarts])
    exact ⟨token, rest ++ more.tokens, by simp [tokens, htokens], hfirst⟩
  | prefixed op => exact ⟨_, _, rfl, List.mem_append_left operandStarts op.2⟩
  | unprefixed inner ih =>
    obtain ⟨first, rest, htokens, hfirst⟩ := ih (by decide)
    exact ⟨first, rest, htokens, List.mem_cons_of_mem _ (List.mem_cons_of_mem _ hfirst)⟩
  | primary atom calls ih =>
    obtain ⟨first, rest, htokens, hfirst⟩ := ih (by decide)
    exact ⟨first, rest ++ calls.tokens, by simp [tokens, htokens], hfirst⟩
  | ident token | number token | text token | yesWord token | noWord token | group token
  | ifElse token | function token =>
    exact ⟨_, _, rfl, token.kind_mem (by decide)⟩
  | _ => exact absurd rfl h

/-- If a text starts with the expression `d`, its first token is the first one of `d`. -/
theorem headD_tokens {level : Level} (d : Phrase (.expr level)) {token : Token}
    {rest tokens : List Token} (h : d.tokens ++ rest = token :: tokens) :
    d.tokens.headD default = token := by
  obtain ⟨first, others, htokens, -⟩ := d.exists_first (by simp [Symbol.starts, exprStarts])
  rw [htokens] at h ⊢
  exact (List.cons.inj h).1

end Phrase
end Grammar
end TreeWalk
