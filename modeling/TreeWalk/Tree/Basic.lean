import TreeWalk.Token.Basic

/-!
# Syntax trees

The tree of a program.  Statements and expressions share one type, because a tree built by hand
may put any node in any place: a position may be left open (`Node.hole`), and a node may be given
as a kind alone (`Node.bare`).  What the parser builds has neither.

## Main definitions

* `NodeKind` — the kinds of nodes, with their numbers and labels.
* `Ident` — a name with the token it comes from.
* `Node` — a node.
* `Node.kind?`, `Node.leading` — the kind of a node and the text of its leading token.
* `Program` — the statements of a program.
-/

namespace TreeWalk

/-- The kind of a node. -/
inductive NodeKind
  /-- A binding. -/
  | letStmt
  /-- A return. -/
  | returnStmt
  /-- An expression as a statement. -/
  | exprStmt
  /-- Statements in braces. -/
  | block
  /-- A name. -/
  | ident
  /-- A number. -/
  | number
  /-- A quoted text. -/
  | text
  /-- A truth value. -/
  | boolean
  /-- An operator before its operand. -/
  | prefixOp
  /-- An operator between its operands. -/
  | infixOp
  /-- A choice. -/
  | ifElse
  /-- A function. -/
  | function
  /-- A call. -/
  | call
  /-- A number that belongs to no kind. -/
  | unassigned (number : Int)
  deriving DecidableEq, Repr, Inhabited

namespace NodeKind

/-- The kind with the given `number`: statements are 1 to 4 and expressions 7 to 15. -/
def ofNumber (number : Int) : NodeKind :=
  match number with
  | 1 => letStmt
  | 2 => returnStmt
  | 3 => exprStmt
  | 4 => block
  | 7 => ident
  | 8 => NodeKind.number
  | 9 => text
  | 10 => boolean
  | 11 => prefixOp
  | 12 => infixOp
  | 13 => ifElse
  | 14 => function
  | 15 => call
  | other => unassigned other

/-- The label of a `NodeKind`. -/
def label : NodeKind → Bytes
  | letStmt => utf8 "KIND_LET_STMT"
  | returnStmt => utf8 "KIND_RETURN_STMT"
  | exprStmt => utf8 "KIND_EXPR_STMT"
  | block => utf8 "KIND_BLOCK_STMT"
  | ident => utf8 "KIND_ID_EXPR"
  | number => utf8 "KIND_INTEGER_LITERAL"
  | text => utf8 "KIND_STRING_LITERAL"
  | boolean => utf8 "KIND_BOOLEAN_LITERAL"
  | prefixOp => utf8 "KIND_PREFIX_EXPR"
  | infixOp => utf8 "KIND_INFIX_EXPR"
  | ifElse => utf8 "KIND_IF_EXPR"
  | function => utf8 "KIND_FN_LITERAL"
  | call => utf8 "KIND_CALL_EXPR"
  | unassigned code => utf8 "Unknown Node Kind: " ++ Bytes.ofInt code

/-- Whether nodes of this kind are statements. -/
def isStmt : NodeKind → Bool
  | letStmt | returnStmt | exprStmt | block => true
  | _ => false

/-- Whether nodes of this kind are expressions. -/
def isExpr : NodeKind → Bool
  | letStmt | returnStmt | exprStmt | block | unassigned _ => false
  | _ => true

end NodeKind

/-- A name with the token it comes from. -/
structure Ident where
  /-- The token. -/
  token : Token
  /-- The name. -/
  name : Bytes
  deriving DecidableEq, Repr, Inhabited

/-- A node of a syntax tree.  Every node of the language keeps its leading token. -/
inductive Node
  /-- A position left open. -/
  | hole
  /-- A node of which only the kind is given. -/
  | bare (kind : NodeKind)
  /-- `let name = value`. -/
  | letStmt (token : Token) (name : Ident) (value : Node)
  /-- `return value`. -/
  | returnStmt (token : Token) (value : Node)
  /-- An expression as a statement; the token is its first. -/
  | exprStmt (token : Token) (expr : Node)
  /-- Statements in braces. -/
  | block (token : Token) (stmts : List Node)
  /-- A name. -/
  | ident (id : Ident)
  /-- A number. -/
  | number (token : Token) (value : Float)
  /-- A quoted text. -/
  | text (token : Token) (value : Bytes)
  /-- A truth value. -/
  | boolean (token : Token) (value : Bool)
  /-- An operator before its operand. -/
  | prefixOp (token : Token) (op : Bytes) (right : Node)
  /-- An operator between its operands. -/
  | infixOp (token : Token) (op : Bytes) (left right : Node)
  /-- A choice between two blocks; the second one is a hole when there is no `else`. -/
  | ifElse (token : Token) (cond yes no : Node)
  /-- A function; its body is a block. -/
  | function (token : Token) (params : List Ident) (body : Node)
  /-- A call; the token is the opening parenthesis. -/
  | call (token : Token) (callee : Node) (args : List Node)
  deriving Inhabited

/-- The statements of a program. -/
abbrev Program := List Node

namespace Node

/-- The kind of a node; `Node.hole` has none. -/
def kind? : Node → Option NodeKind
  | hole => none
  | bare kind => some kind
  | letStmt .. => some .letStmt
  | returnStmt .. => some .returnStmt
  | exprStmt .. => some .exprStmt
  | block .. => some .block
  | ident .. => some .ident
  | number .. => some .number
  | text .. => some .text
  | boolean .. => some .boolean
  | prefixOp .. => some .prefixOp
  | infixOp .. => some .infixOp
  | ifElse .. => some .ifElse
  | function .. => some .function
  | call .. => some .call

/-- The text of the leading token; empty where there is none. -/
def leading : Node → Bytes
  | hole => []
  | bare _ => []
  | letStmt token .. => token.lexeme
  | returnStmt token .. => token.lexeme
  | exprStmt token .. => token.lexeme
  | block token .. => token.lexeme
  | ident id => id.token.lexeme
  | number token .. => token.lexeme
  | text token .. => token.lexeme
  | boolean token .. => token.lexeme
  | prefixOp token .. => token.lexeme
  | infixOp token .. => token.lexeme
  | ifElse token .. => token.lexeme
  | function token .. => token.lexeme
  | call token .. => token.lexeme

/-- Whether a position is left open, that is whether the node is `Node.hole`. -/
def isHole : Node → Bool
  | hole => true
  | _ => false

end Node

/-- The text of the leading token of a program: that of its first statement. -/
def Program.leading (program : Program) : Bytes :=
  (program.head?.map Node.leading).getD []

end TreeWalk
