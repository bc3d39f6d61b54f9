import TreeWalk.Tree.Basic

/-!
# Trees as text

A tree is written back as program text in which every operator stands in parentheses of its own.
Holes are written as nothing, and statements follow each other without a separator.

## Main definitions

* `Node.render` — the text of a node.
* `Node.renderAll` — the text of statements in a row.
* `Program.render` — the text of a program.
-/

namespace TreeWalk

/-- The parameters of a function, separated by commas. -/
def renderParams (params : List Ident) : Bytes :=
  Bytes.join (utf8 ", ") (params.map (·.name))

namespace Node

mutual

/-- The text of a node.  Operators are in parentheses with their operands, so the text shows how
`Parse.climb` grouped them. -/
def render : Node → Bytes
  | hole => []
  | bare _ => []
  | letStmt token name value =>
    token.lexeme ++ utf8 " " ++ name.name ++ utf8 " = " ++ render value ++ utf8 ";"
  | returnStmt token value => token.lexeme ++ utf8 " " ++ render value ++ utf8 ";"
  | exprStmt _ expr => render expr
  | block _ stmts => renderAll stmts
  | ident id => id.name
  | number token _ => token.lexeme
  | text _ value => value
  | boolean token _ => token.lexeme
  | prefixOp _ op right => utf8 "(" ++ op ++ render right ++ utf8 ")"
  | infixOp _ op left right =>
    utf8 "(" ++ render left ++ utf8 " " ++ op ++ utf8 " " ++ render right ++ utf8 ")"
  | ifElse _ cond yes no =>
    utf8 "if " ++ render cond ++ utf8 " " ++ render yes
      ++ (if no.isHole then [] else utf8 " else " ++ render no)
  | function token params body =>
    token.lexeme ++ utf8 "(" ++ renderParams params ++ utf8 ") " ++ render body
  | call _ callee args =>
    render callee ++ utf8 "(" ++ Bytes.join (utf8 ", ") (renderEach args) ++ utf8 ")"

/-- The text of statements in a row, with nothing between what `render` gives for each. -/
def renderAll : List Node → Bytes
  | [] => []
  | node :: more => render node ++ renderAll more

/-- What `render` gives for each node of a list. -/
def renderEach : List Node → List Bytes
  | [] => []
  | node :: more => render node :: renderEach more

end

end Node

/-- The text of a program, by `Node.renderAll`. -/
def Program.render (program : Program) : Bytes := Node.renderAll program

end TreeWalk
