import TreeWalk.Diagnostic
import TreeWalk.Number.Nearest
import TreeWalk.Token.Scan
import TreeWalk.Tree.Basic

/-!
# Parsing

Tokens are read into trees by recursive descent, with precedence climbing for operators and calls.
A function that reads a construct is given the tokens behind the one that starts it, and leaves
the tokens behind the one that ends it.  The end of the input is the empty list; its end token is
handed along so that messages can point at it.

A statement that cannot be read is reported once and left out; reading goes on behind the token at
which it failed.  Every result carries the fact that the tokens left are no more than the tokens
given, and that is what the recursion rests on.

## Main definitions

* `Precedence`, `Kind.precedence` — how tightly an operator binds.
* `Parse` — the result of reading a construct.
* `Parse.expr`, `Parse.stmt`, `Parse.block` — expressions, statements and blocks.
* `Parse.program` — the statements of a program.
* `Cursor.parse`, `Cursor.parseExpr` — reading from a program text.
* `Cursor.parseInto` — the same, with the diagnostics reported to a collector.
-/

namespace TreeWalk

/-- How tightly a construct binds: comparison of equality, comparison of order, sums, products,
operators before an operand, calls. -/
inductive Precedence
  /-- Looser than any operator. -/
  | lowest
  /-- `==` and `!=`. -/
  | equals
  /-- `<` and `>`. -/
  | order
  /-- `+` and `-`. -/
  | sum
  /-- `*` and `/`. -/
  | product
  /-- An operator before its operand. -/
  | unary
  /-- A call. -/
  | call
  deriving DecidableEq, Repr

/-- The rank of a `Precedence`, looser ones first. -/
def Precedence.rank : Precedence → Nat
  | lowest => 0
  | equals => 1
  | order => 2
  | sum => 3
  | product => 4
  | unary => 5
  | call => 6

/-- How tightly a token binds what stands before it; tokens that continue no expression bind
loosest. -/
def Kind.precedence : Kind → Precedence
  | equalEqual | bangEqual => .equals
  | less | greater => .order
  | plus | minus => .sum
  | star | slash => .product
  | openParen => .call
  | _ => .lowest

/-- The result of reading a construct from a list of `bound` tokens.  That no more tokens are left
than were given is part of it, and is what the recursion of the parser ends by. -/
structure Parse (α : Type) (bound : Nat) where
  /-- What was read, or `none` after a complaint. -/
  result : Option α
  /-- The tokens left. -/
  rest : List Token
  /-- The diagnostics in the order of their reports. -/
  diagnostics : List Diagnostic
  /-- No more tokens are left than were given. -/
  length_le : rest.length ≤ bound

namespace Parse

variable {α β : Type} {bound : Nat}

/-- A construct `value` that was read, with `rest` left. -/
def accept (value : α) (rest : List Token) (h : rest.length ≤ bound := by simp) :
    Parse α bound :=
  ⟨some value, rest, [], h⟩

/-- A construct that cannot be read: one diagnostic, and `rest` is left where it is. -/
def fail (complaint : Complaint) (pos : Position) (rest : List Token)
    (h : rest.length ≤ bound := by simp) : Parse α bound :=
  ⟨none, rest, [.of complaint pos], h⟩

/-- Reads on with `next` behind a construct, unless it could not be read. -/
def andThen (first : Parse α bound)
    (next : α → (rest : List Token) → rest.length ≤ bound → Parse β rest.length) :
    Parse β bound :=
  match first with
  | ⟨none, rest, diagnostics, h⟩ => ⟨none, rest, diagnostics, h⟩
  | ⟨some value, rest, diagnostics, h⟩ =>
    let second := next value rest h
    ⟨second.result, second.rest, diagnostics ++ second.diagnostics,
      Nat.le_trans second.length_le h⟩

/-- The same reading, with `bound'` tokens allowed. -/
def widen {bound' : Nat} (parse : Parse α bound) (h : bound ≤ bound') : Parse α bound' :=
  { parse with length_le := Nat.le_trans parse.length_le h }

/-- Reads on with `more` behind a statement whether or not it could be read, and puts it in front of
what follows if it could. -/
def collect (first : Parse α bound)
    (more : (rest : List Token) → rest.length ≤ bound → Parse (List α) rest.length) :
    Parse (List α) bound :=
  match first with
  | ⟨result, rest, diagnostics, h⟩ =>
    let second := more rest h
    ⟨second.result.map (result.toList ++ ·), second.rest, diagnostics ++ second.diagnostics,
      Nat.le_trans second.length_le h⟩

/-- The next token, which has to be of the given `kind`; another one is left where it is.  At the
end of the input it is `finish` that was found. -/
def expect (finish : Token) (kind : Kind) (tokens : List Token) : Parse Token tokens.length :=
  match tokens with
  | [] => fail (.expected kind finish.kind) finish.pos []
  | token :: rest =>
    if token.kind = kind then accept token rest
    else fail (.expected kind token.kind) token.pos (token :: rest)

/-- The tokens without a `;` at their start. -/
def dropSemicolon : List Token → List Token
  | [] => []
  | token :: rest => if token.kind = .semicolon then rest else token :: rest

theorem length_dropSemicolon_le (tokens : List Token) :
    (dropSemicolon tokens).length ≤ tokens.length := by
  rw [dropSemicolon.eq_def]
  split
  · simp
  · split <;> simp

/-- The number that a run of digits spells in decimal. -/
def digitsValue (digits : Bytes) : Nat :=
  Nat.ofDigitChars 10 (digits.map fun b => Char.ofNat b.toNat) 0

/-- The tree of a run of digits; a number past every double is `Complaint.tooLarge`. -/
def number (token : Token) (rest : List Token) : Parse Node rest.length :=
  match Number.nearest? (digitsValue token.lexeme) 1 with
  | some value => accept (.number token value) rest
  | none => fail (.tooLarge token.lexeme) token.pos rest

/-- More parameters behind a first one, each with a `,` in front, and the closing `)`. -/
def moreParams (finish : Token) : (tokens : List Token) → Parse (List Ident) tokens.length
  | [] => fail (.expected .closeParen finish.kind) finish.pos []
  | token :: rest =>
    if token.kind = .comma then
      match rest with
      | [] => fail (.expected .ident finish.kind) finish.pos []
      | name :: rest =>
        if name.kind = .ident then
          (moreParams finish rest).widen (by simp; omega) |>.andThen fun names rest _ =>
            accept (⟨name, name.lexeme⟩ :: names) rest
        else fail (.expected .ident name.kind) name.pos (name :: rest)
    else if token.kind = .closeParen then accept [] rest
    else fail (.expected .closeParen token.kind) token.pos (token :: rest)

/-- The parameters of a function behind the opening `(`, and the closing one. -/
def params (finish : Token) (tokens : List Token) : Parse (List Ident) tokens.length :=
  match tokens with
  | [] => fail (.expected .ident finish.kind) finish.pos []
  | token :: rest =>
    if token.kind = .closeParen then accept [] rest
    else if token.kind = .ident then
      (moreParams finish rest).widen (by simp) |>.andThen fun names rest _ =>
        accept (⟨token, token.lexeme⟩ :: names) rest
    else fail (.expected .ident token.kind) token.pos (token :: rest)

mutual

/-- The statement that starts with `token`: a binding, a return, or any expression. -/
def stmt (finish token : Token) (tokens : List Token) : Parse Node tokens.length :=
  match token.kind with
  | .letWord =>
    (expect finish .ident tokens).andThen fun name rest _ =>
    (expect finish .equal rest).andThen fun _ rest _ =>
    (nextExpr finish .lowest rest).andThen fun value rest _ =>
    accept (.letStmt token ⟨name, name.lexeme⟩ value) (dropSemicolon rest)
      (length_dropSemicolon_le rest)
  | .returnWord =>
    (nextExpr finish .lowest tokens).andThen fun value rest _ =>
    accept (.returnStmt token value) (dropSemicolon rest) (length_dropSemicolon_le rest)
  | _ =>
    (expr finish .lowest token tokens).andThen fun value rest _ =>
    accept (.exprStmt token value) (dropSemicolon rest) (length_dropSemicolon_le rest)
termination_by 5 * tokens.length + 4
decreasing_by all_goals (simp_wf <;> omega)

/-- The statements up to the closing `}`, which is taken. -/
def block (finish : Token) (tokens : List Token) : Parse (List Node) tokens.length :=
  match tokens with
  | [] => fail (.expected .closeBrace .eof) finish.pos []
  | token :: rest =>
    if token.kind = .closeBrace then accept [] rest
    else
      ((stmt finish token rest).collect fun rest _ => block finish rest).widen (by simp)
termination_by 5 * tokens.length
decreasing_by all_goals (simp_wf; omega)

/-- The expression that starts with the next token, read by `expr`. -/
def nextExpr (finish : Token) (floor : Precedence) (tokens : List Token) :
    Parse Node tokens.length :=
  match tokens with
  | [] => fail (.noExpression finish.kind) finish.pos []
  | token :: rest => (expr finish floor token rest).widen (by simp)
termination_by 5 * tokens.length
decreasing_by all_goals (simp_wf; omega)

/-- The expression that starts with `token` and binds more tightly than `floor`: its `operand`, and
what `climb` finds behind that. -/
def expr (finish : Token) (floor : Precedence) (token : Token) (tokens : List Token) :
    Parse Node tokens.length :=
  (operand finish token tokens).andThen fun left rest _ => climb finish floor left rest
termination_by 5 * tokens.length + 3
decreasing_by all_goals (simp_wf <;> omega)

/-- The shortest expression that starts with `token`, before any operator behind it is looked at. -/
def operand (finish token : Token) (tokens : List Token) : Parse Node tokens.length :=
  match token.kind with
  | .ident => accept (.ident ⟨token, token.lexeme⟩) tokens
  | .int => number token tokens
  | .string => accept (.text token token.lexeme) tokens
  | .trueWord => accept (.boolean token true) tokens
  | .falseWord => accept (.boolean token false) tokens
  | .bang | .minus =>
    (nextExpr finish .unary tokens).andThen fun right rest _ =>
    accept (.prefixOp token token.lexeme right) rest
  | .openParen =>
    (nextExpr finish .lowest tokens).andThen fun inner rest _ =>
    (expect finish .closeParen rest).andThen fun _ rest _ =>
    accept inner rest
  | .ifWord =>
    (expect finish .openParen tokens).andThen fun _ rest _ =>
    (nextExpr finish .lowest rest).andThen fun cond rest _ =>
    (expect finish .closeParen rest).andThen fun _ rest _ =>
    (expect finish .openBrace rest).andThen fun yesBrace rest _ =>
    (block finish rest).andThen fun yes rest _ =>
    (alternative finish rest).andThen fun no rest _ =>
    accept (.ifElse token cond (.block yesBrace yes) no) rest
  | .fnWord =>
    (expect finish .openParen tokens).andThen fun _ rest _ =>
    (params finish rest).andThen fun names rest _ =>
    (expect finish .openBrace rest).andThen fun brace rest _ =>
    (block finish rest).andThen fun body rest _ =>
    accept (.function token names (.block brace body)) rest
  | kind => fail (.noExpression kind) token.pos tokens
termination_by 5 * tokens.length + 2
decreasing_by all_goals (simp_wf <;> omega)

/-- The block behind `else`, or a hole when there is no `else`. -/
def alternative (finish : Token) (tokens : List Token) : Parse Node tokens.length :=
  match tokens with
  | [] => accept .hole []
  | token :: rest =>
    if token.kind = .elseWord then
      ((expect finish .openBrace rest).andThen fun brace rest _ =>
        (block finish rest).andThen fun no rest _ =>
        accept (.block brace no) rest).widen (by simp)
    else accept .hole (token :: rest)
termination_by 5 * tokens.length + 1
decreasing_by all_goals (simp_wf; omega)

/-- Everything behind `left` that binds it more tightly than `floor`.  Each round makes one more
node around `left`, so operators of one rank lean to the left. -/
def climb (finish : Token) (floor : Precedence) (left : Node) (tokens : List Token) :
    Parse Node tokens.length :=
  match tokens with
  | [] => accept left []
  | token :: rest =>
    if floor.rank < token.kind.precedence.rank then
      ((if token.kind = .openParen then
          (args finish rest).andThen fun values rest _ =>
          climb finish floor (.call token left values) rest
        else
          (nextExpr finish token.kind.precedence rest).andThen fun right rest _ =>
          climb finish floor (.infixOp token token.lexeme left right) rest) :
        Parse Node rest.length).widen (by simp)
    else accept left (token :: rest)
termination_by 5 * tokens.length + 1
decreasing_by all_goals (simp_wf <;> omega)

/-- The arguments of a call behind the opening `(`, and the closing one. -/
def args (finish : Token) (tokens : List Token) : Parse (List Node) tokens.length :=
  match tokens with
  | [] => fail (.noExpression finish.kind) finish.pos []
  | token :: rest =>
    if token.kind = .closeParen then accept [] rest
    else
      ((expr finish .lowest token rest).andThen fun value rest _ =>
        (moreArgs finish rest).andThen fun values rest _ =>
        accept (value :: values) rest).widen (by simp)
termination_by 5 * tokens.length
decreasing_by all_goals (simp_wf; omega)

/-- More arguments behind a first one, each with a `,` in front, and the closing `)`. -/
def moreArgs (finish : Token) (tokens : List Token) : Parse (List Node) tokens.length :=
  match tokens with
  | [] => fail (.expected .closeParen finish.kind) finish.pos []
  | token :: rest =>
    if token.kind = .comma then
      ((nextExpr finish .lowest rest).andThen fun value rest _ =>
        (moreArgs finish rest).andThen fun values rest _ =>
        accept (value :: values) rest).widen (by simp)
    else if token.kind = .closeParen then accept [] rest
    else fail (.expected .closeParen token.kind) token.pos (token :: rest)
termination_by 5 * tokens.length
decreasing_by all_goals (simp_wf <;> omega)

end

/-- The statements of a program up to the end of the input; one that cannot be read is left out, and
reading goes on behind it. -/
def program (finish : Token) (tokens : List Token) : Parse Program tokens.length :=
  match tokens with
  | [] => accept [] []
  | token :: rest =>
    ((stmt finish token rest).collect fun rest _ => program finish rest).widen (by simp)
termination_by tokens.length
decreasing_by simp_wf; omega

end Parse

/-- What reading a program text gives. -/
structure Parsed where
  /-- The statements that could be read. -/
  program : Program
  /-- The diagnostics in the order of their reports. -/
  diagnostics : List Diagnostic
  /-- The tokens left. -/
  rest : List Token

namespace Cursor

/-- Reads the program from a cursor to the end of the input with `Parse.program`. -/
def parse (cursor : Cursor) : Parsed :=
  let reading := Parse.program cursor.finish.endToken cursor.tokens
  ⟨reading.result.getD [], reading.diagnostics, reading.rest⟩

/-- Reads one expression at a cursor with `Parse.nextExpr`; what stands behind it does not
matter. -/
def parseExpr (cursor : Cursor) : Node × List Diagnostic :=
  let reading := Parse.nextExpr cursor.finish.endToken .lowest cursor.tokens
  (reading.result.getD .hole, reading.diagnostics)

/-- Reads the program from a cursor to the end of the input, where the cursor ends up.  What is
wrong with it is reported to `collector`. -/
def parseInto (collector : Collector) (cursor : Cursor) : Program × Collector × Cursor :=
  let parsed := cursor.parse
  (parsed.program, collector.reportAll parsed.diagnostics, cursor.finish)

/-- Reads the program from a cursor to the end of the input, where the cursor ends up, together with
the messages of what is wrong with it. -/
def parseMessages (cursor : Cursor) : Program × List Bytes × Cursor :=
  let (program, collector, after) := cursor.parseInto (.empty false)
  (program, collector.messages, after)

/-- The start of a text that is read for its own sake; without a name it is called `input`. -/
def ofInput (name text : Bytes) : Cursor := .startOr (utf8 "input") name text

end Cursor

/-- Reads `text` as a whole program, together with the messages of what is wrong with it. -/
def parseSource (text : Bytes) : Program × List Bytes :=
  let (program, messages, _) := (Cursor.ofInput [] text).parseMessages
  (program, messages)

/-- Reads one expression from `text`.  It is `Node.hole` if there is something wrong with it. -/
def parseExprFrom (text name : Bytes) : Node × Collector :=
  let (node, diagnostics) := (Cursor.ofInput name text).parseExpr
  (node, (Collector.empty false).reportAll diagnostics)

end TreeWalk
