import TreeWalk.Proofs.Layout
import TreeWalk.Proofs.TwinReadings

/-!
# Tokens in other places

The parser does the same with tokens that stand in other places: it builds the same tree around them
and complains of the same things.  How the old places and the new ones are related is left open;
whatever relation `P` there is between the tokens that are read, there is between the tokens in the
trees and between the places of the complaints.

With `P` always true this says that layout makes no difference to reading.  With `P p q` saying that
`p` and `q` are the same and have some property, it says that no complaint is about a place that
lacks the property.

## Main definitions

* `Ident.Alike`, `Node.Alike` — the same up to positions.

## Main results

* `Parse.alike_kinship` — trees that are the same up to positions are built of tokens that are.
* `Cursor.parse_alike` — **texts with the same tokens are read alike.**
-/

namespace TreeWalk

/-! ### The same up to positions -/

section

variable (P : Position → Position → Prop)

/-- The same name, read from tokens that are `Token.Alike`. -/
structure Ident.Alike (id twin : Ident) : Prop where
  /-- The tokens. -/
  token : id.token.Alike P twin.token
  /-- The names. -/
  name : id.name = twin.name

/-- The same tree, built of tokens in other places. -/
inductive Node.Alike : Node → Node → Prop
  /-- Positions left open. -/
  | hole : Alike .hole .hole
  /-- Nodes of which only the kind is given. -/
  | bare (kind : NodeKind) : Alike (.bare kind) (.bare kind)
  /-- Bindings. -/
  | letStmt {token token' : Token} {name name' : Ident} {value value' : Node}
      (htoken : token.Alike P token') (hname : name.Alike P name') (hvalue : Alike value value') :
      Alike (.letStmt token name value) (.letStmt token' name' value')
  /-- Returns. -/
  | returnStmt {token token' : Token} {value value' : Node} (htoken : token.Alike P token')
      (hvalue : Alike value value') : Alike (.returnStmt token value) (.returnStmt token' value')
  /-- Expressions as statements. -/
  | exprStmt {token token' : Token} {expr expr' : Node} (htoken : token.Alike P token')
      (hexpr : Alike expr expr') : Alike (.exprStmt token expr) (.exprStmt token' expr')
  /-- Blocks. -/
  | block {token token' : Token} {stmts stmts' : List Node} (htoken : token.Alike P token')
      (hstmts : List.Forall₂ Alike stmts stmts') :
      Alike (.block token stmts) (.block token' stmts')
  /-- Names. -/
  | ident {id id' : Ident} (hid : id.Alike P id') : Alike (.ident id) (.ident id')
  /-- Numbers. -/
  | number {token token' : Token} (htoken : token.Alike P token') (value : Float) :
      Alike (.number token value) (.number token' value)
  /-- Quoted texts. -/
  | text {token token' : Token} (htoken : token.Alike P token') (value : Bytes) :
      Alike (.text token value) (.text token' value)
  /-- Truth values. -/
  | boolean {token token' : Token} (htoken : token.Alike P token') (value : Bool) :
      Alike (.boolean token value) (.boolean token' value)
  /-- Operators before operands. -/
  | prefixOp {token token' : Token} (htoken : token.Alike P token') (op : Bytes)
      {right right' : Node} (hright : Alike right right') :
      Alike (.prefixOp token op right) (.prefixOp token' op right')
  /-- Operators between operands. -/
  | infixOp {token token' : Token} (htoken : token.Alike P token') (op : Bytes)
      {left left' right right' : Node} (hleft : Alike left left') (hright : Alike right right') :
      Alike (.infixOp token op left right) (.infixOp token' op left' right')
  /-- Choices. -/
  | ifElse {token token' : Token} {cond cond' yes yes' no no' : Node}
      (htoken : token.Alike P token') (hcond : Alike cond cond') (hyes : Alike yes yes')
      (hno : Alike no no') : Alike (.ifElse token cond yes no) (.ifElse token' cond' yes' no')
  /-- Functions. -/
  | function {token token' : Token} {params params' : List Ident} {body body' : Node}
      (htoken : token.Alike P token') (hparams : List.Forall₂ (Ident.Alike P) params params')
      (hbody : Alike body body') :
      Alike (.function token params body) (.function token' params' body')
  /-- Calls. -/
  | call {token token' : Token} {callee callee' : Node} {args args' : List Node}
      (htoken : token.Alike P token') (hcallee : Alike callee callee')
      (hargs : List.Forall₂ Alike args args') :
      Alike (.call token callee args) (.call token' callee' args')

end

/-- The names that are read from tokens which are `Alike` are `Ident.Alike`. -/
theorem Token.Alike.ident {P : Position → Position → Prop} {token twin : Token}
    (h : token.Alike P twin) : Ident.Alike P ⟨token, token.lexeme⟩ ⟨twin, twin.lexeme⟩ :=
  ⟨h, h.lexeme⟩

/-! ### Texts with the same tokens -/

/-- Trees that are the same up to positions (`Node.Alike`) are built of tokens that are. -/
theorem Parse.alike_kinship (P : Position → Position → Prop) :
    Kinship P (Token.Alike P) (Ident.Alike P) (Node.Alike P) (Node.Alike P) (Node.Alike P)
      (Node.Alike P) where
  alike h := h
  name := Token.Alike.ident
  ident := .ident
  number := .number
  text h := h.lexeme ▸ .text h _
  boolean := .boolean
  prefixOp h _ hright := h.lexeme ▸ .prefixOp h _ hright
  infixOp h _ _ hleft hright := h.lexeme ▸ .infixOp h _ hleft hright
  ifElse := .ifElse
  function := .function
  call := .call
  letStmt := .letStmt
  returnStmt := .returnStmt
  exprStmt := .exprStmt
  block := .block
  hole := .hole
  other h := h

/-- **Texts with the same tokens are read alike**, wherever the tokens stand: into programs that are
`Node.Alike`, with the same complaints about places that `P` relates. -/
theorem Cursor.parse_alike {P : Position → Position → Prop} {cursor twin : Cursor}
    (hfinish : cursor.finish.endToken.Alike P twin.finish.endToken)
    (htokens : List.Forall₂ (Token.Alike P) cursor.tokens twin.tokens) :
    List.Forall₂ (Node.Alike P) cursor.parse.program twin.parse.program ∧
      List.Forall₂ (Diagnostic.Alike P) cursor.parse.diagnostics twin.parse.diagnostics :=
  parse_twins (Parse.alike_kinship P) hfinish htokens

/-- Tokens with the same `Token.item`, which is their kind and their text, are `Alike` when places
do not matter. -/
theorem Token.alike_of_items {tokens tokens' : List Token}
    (h : tokens.map Token.item = tokens'.map Token.item) :
    List.Forall₂ (Token.Alike fun _ _ => True) tokens tokens' := by
  rw [← List.forall₂_eq_eq_eq, List.forall₂_map_left_iff, List.forall₂_map_right_iff] at h
  refine h.imp fun token token' htoken => ?_
  obtain ⟨hkind, hlexeme⟩ := Prod.mk.inj htoken
  exact ⟨hkind, hlexeme, trivial⟩

end TreeWalk
