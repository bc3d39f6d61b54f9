import TreeWalk.Proofs.Layout
import TreeWalk.Proofs.Reading
import TreeWalk.Tree.Render

/-!
# Trees written back

Names, numerals, truth values, operators and calls, written back as text, are read as the same tree,
however deeply they are nested: the parentheses that are written undo all precedence, and no two
tokens grow together.  What is not the same are the positions of the tokens, and the first token of
an expression that stands as a statement, which may now be a parenthesis.

The argument follows the tree.  Whatever tokens a text gives that starts with a written expression,
the parser reads that expression first, and then goes on as if it had just read an operand
(`Recovered`).

## Main definitions

* `Node.unplaced` — a tree without positions.
* `Simple`, `SimpleStmt`, `SimpleProgram` — the trees that are recovered.
* `Recovered` — an expression is read back from its text.

## Main results

* `Simple.recovered` — every simple expression is read back.
* `Cursor.parse_render` — **a simple program is read back from its text.**
-/

namespace TreeWalk

open Spelling Parse

/-! ### Trees without positions -/

/-- The token without its position. -/
def Token.unplaced (token : Token) : Token := { token with pos := default }

theorem Token.unplaced_eq {token other : Token} (h : token.item = other.item) :
    token.unplaced = other.unplaced := by
  obtain ⟨hkind, hlexeme⟩ := Prod.mk.inj h
  rw [unplaced, unplaced, hkind, hlexeme]

/-- The name without its position. -/
def Ident.unplaced (id : Ident) : Ident := ⟨id.token.unplaced, id.name⟩

namespace Node

mutual

/-- The tree without positions, and without the first tokens of expressions that stand as
statements. -/
def unplaced : Node → Node
  | hole => hole
  | bare kind => bare kind
  | letStmt token name value => letStmt token.unplaced name.unplaced (unplaced value)
  | returnStmt token value => returnStmt token.unplaced (unplaced value)
  | exprStmt _ expr => exprStmt default (unplaced expr)
  | block token stmts => block token.unplaced (unplacedEach stmts)
  | ident id => ident id.unplaced
  | number token value => number token.unplaced value
  | text token value => text token.unplaced value
  | boolean token value => boolean token.unplaced value
  | prefixOp token op right => prefixOp token.unplaced op (unplaced right)
  | infixOp token op left right => infixOp token.unplaced op (unplaced left) (unplaced right)
  | ifElse token cond yes no =>
    ifElse token.unplaced (unplaced cond) (unplaced yes) (unplaced no)
  | function token params body =>
    function token.unplaced (params.map Ident.unplaced) (unplaced body)
  | call token callee args => call token.unplaced (unplaced callee) (unplacedEach args)

/-- Each tree of a list without positions. -/
def unplacedEach : List Node → List Node
  | [] => []
  | node :: more => unplaced node :: unplacedEach more

end

end Node

/-! ### Simple trees -/

/-- The operators before an operand. -/
def prefixSigns : List (Kind × Bytes) := [(.bang, utf8 "!"), (.minus, utf8 "-")]

/-- The operators between operands. -/
def infixSigns : List (Kind × Bytes) :=
  [(.equalEqual, utf8 "=="), (.bangEqual, utf8 "!="), (.less, utf8 "<"), (.greater, utf8 ">"),
    (.plus, utf8 "+"), (.minus, utf8 "-"), (.star, utf8 "*"), (.slash, utf8 "/")]

/-- A name token: a name that is not reserved. -/
def Token.IsName (token : Token) : Prop :=
  token.kind = .ident ∧ TreeWalk.IsName token.lexeme ∧ token.lexeme ∉ reserved.map (·.2)

/-- Expressions of names, numerals, truth values, operators and calls, with the tokens that the
parser gives them. -/
inductive Simple : Node → Prop
  /-- A name. -/
  | name {token : Token} (h : token.IsName) : Simple (.ident ⟨token, token.lexeme⟩)
  /-- A numeral that is not too large. -/
  | numeral {token : Token} {value : Float} (kind : token.kind = .int)
      (h : IsNumeral token.lexeme)
      (fits : Number.nearest? (digitsValue token.lexeme) 1 = some value) :
      Simple (.number token value)
  /-- A truth value. -/
  | boolean {token : Token} {value : Bool}
      (h : token.item = if value then (.trueWord, utf8 "true") else (.falseWord, utf8 "false")) :
      Simple (.boolean token value)
  /-- An operator before its operand. -/
  | prefixOp {token : Token} {right : Node} (h : token.item ∈ prefixSigns)
      (hright : Simple right) : Simple (.prefixOp token token.lexeme right)
  /-- An operator between its operands. -/
  | infixOp {token : Token} {left right : Node} (h : token.item ∈ infixSigns)
      (hleft : Simple left) (hright : Simple right) :
      Simple (.infixOp token token.lexeme left right)
  /-- A call. -/
  | call {token : Token} {callee : Node} {args : List Node}
      (h : token.item = (.openParen, utf8 "(")) (hcallee : Simple callee)
      (hargs : ∀ arg ∈ args, Simple arg) : Simple (.call token callee args)

/-- Bindings and returns of simple expressions. -/
inductive SimpleStmt : Node → Prop
  /-- A binding. -/
  | letStmt {token name : Token} {value : Node} (h : token.item = (.letWord, utf8 "let"))
      (hname : name.IsName) (hvalue : Simple value) :
      SimpleStmt (.letStmt token ⟨name, name.lexeme⟩ value)
  /-- A return. -/
  | returnStmt {token : Token} {value : Node} (h : token.item = (.returnWord, utf8 "return"))
      (hvalue : Simple value) : SimpleStmt (.returnStmt token value)

/-- Programs of such statements; the last one may be a simple expression. -/
inductive SimpleProgram : Program → Prop
  /-- Nothing. -/
  | nil : SimpleProgram []
  /-- An expression at the end. -/
  | last {token : Token} {expr : Node} (h : Simple expr) : SimpleProgram [.exprStmt token expr]
  /-- One more statement. -/
  | next {stmt : Node} {more : Program} (h : SimpleStmt stmt) (hmore : SimpleProgram more) :
      SimpleProgram (stmt :: more)

/-! ### Tokens of a text -/

/-- A token that is `Written` at the start of a text is the first of its tokens. -/
theorem exists_token {tokens : List Token} {kind : Kind} {lexeme raw after : Bytes}
    (h : tokens.map Token.item = items (raw ++ after)) (hwritten : Written kind lexeme raw)
    (hends : Ends kind after) :
    ∃ token more, tokens = token :: more ∧ token.item = (kind, lexeme) ∧
      more.map Token.item = items after := by
  rw [items_written hwritten hends] at h
  exact List.map_eq_cons_iff.mp h

/-- A sign without a `continuation` is the first token where it is written, whatever comes `after`
it. -/
theorem exists_sign (kind : Kind) {tokens : List Token} {raw after : Bytes}
    (h : tokens.map Token.item = items (raw ++ after)) (hsign : (kind, raw) ∈ signTexts)
    (hlast : kind.continuation = []) :
    ∃ token more, tokens = token :: more ∧ token.item = (kind, raw) ∧
      more.map Token.item = items after := by
  refine exists_token h (.sign hsign) fun b _ => ?_
  rw [hlast]
  exact List.not_mem_nil

theorem Token.IsName.written {token : Token} (h : token.IsName) :
    Written .ident token.lexeme token.lexeme := .name h.2.1 h.2.2

/-! ### Expressions -/

section

variable (finish : Token)

/-- From tokens of a text that starts with `node.render`, an operand is read that is `node` up to
positions, and reading goes on behind it with `climb`. -/
def Recovered (node : Node) (after : Bytes) : Prop :=
  ∀ tokens : List Token, tokens.map Token.item = items (node.render ++ after) →
    ∃ found back, found.unplaced = node.unplaced ∧ back.map Token.item = items after ∧
      ∀ floor result rest, floor.rank < Precedence.call.rank →
        (climb finish floor found back).Reads result rest →
        (nextExpr finish floor tokens).Reads result rest

variable {finish}

theorem nextExpr_of_operand {token : Token} {more back rest : List Token} {found result : Node}
    {floor : Precedence} (hoperand : (operand finish token more).Reads found back)
    (hclimb : (climb finish floor found back).Reads result rest) :
    (nextExpr finish floor (token :: more)).Reads result rest :=
  nextExpr_reads_cons.mpr (expr_reads.mpr ⟨found, back, hoperand, hclimb⟩)

/-- A token `closing` that binds nothing ends the climb at once. -/
theorem climb_before {closing : Token} (hloose : closing.kind.precedence = .lowest)
    (floor : Precedence) (node : Node) (back : List Token) :
    (climb finish floor node (closing :: back)).Reads node (closing :: back) := by
  have hrank : nextRank (closing :: back) ≤ floor.rank := by
    rw [nextRank_cons, hloose]
    exact Nat.zero_le _
  exact (climb_reads_stop hrank).mpr ⟨rfl, rfl⟩

/-- An expression that is `Recovered` in front of a sign that binds nothing is read up to that
sign. -/
theorem Recovered.upTo (kind : Kind) (floor : Precedence) {node : Node} {raw after : Bytes}
    {tokens : List Token} (h : Recovered finish node (raw ++ after))
    (hsign : (kind, raw) ∈ signTexts) (hlast : kind.continuation = [])
    (hloose : kind.precedence = .lowest) (hfloor : floor.rank < Precedence.call.rank)
    (htokens : tokens.map Token.item = items (node.render ++ (raw ++ after))) :
    ∃ found closing back, found.unplaced = node.unplaced ∧ closing.kind = kind ∧
      back.map Token.item = items after ∧
      (nextExpr finish floor tokens).Reads found (closing :: back) := by
  obtain ⟨found, behind, hfound, hbehind, hreads⟩ := h tokens htokens
  obtain ⟨closing, back, rfl, hclosing, hback⟩ := exists_sign kind hbehind hsign hlast
  obtain rfl : closing.kind = kind := congrArg Prod.fst hclosing
  exact ⟨found, closing, back, hfound, rfl, hback,
    hreads floor _ _ hfloor (climb_before hloose floor found back)⟩

/-- A `token` that is an operand by itself is `Recovered`. -/
theorem recovered_atom {node : Node} {token : Token} {after : Bytes}
    (hrender : node.render = token.lexeme)
    (hwritten : Written token.kind token.lexeme token.lexeme) (hends : Ends token.kind after)
    (hoperand : ∀ other more, other.item = token.item →
      ∃ found, found.unplaced = node.unplaced ∧ (operand finish other more).Reads found more) :
    Recovered finish node after := by
  intro tokens htokens
  rw [hrender] at htokens
  obtain ⟨other, more, rfl, hother, hmore⟩ := exists_token htokens hwritten hends
  obtain ⟨found, hfound, hreads⟩ := hoperand other more hother
  exact ⟨found, more, hfound, hmore, fun floor result rest _ => nextExpr_of_operand hreads⟩

/-- An expression in parentheses is `Recovered`, if what is `inner` is read up to the closing
one. -/
theorem recovered_group (inner : Bytes) {node : Node} {after : Bytes}
    (hrender : node.render = utf8 "(" ++ inner ++ utf8 ")")
    (hinner : ∀ tokens : List Token, tokens.map Token.item = items (inner ++ (utf8 ")" ++ after)) →
      ∃ found closing back, found.unplaced = node.unplaced ∧ closing.kind = .closeParen ∧
        back.map Token.item = items after ∧
        (nextExpr finish .lowest tokens).Reads found (closing :: back)) :
    Recovered finish node after := by
  intro tokens htokens
  rw [hrender, List.append_assoc, List.append_assoc] at htokens
  obtain ⟨opening, more, rfl, hopening, hmore⟩ :=
    exists_sign .openParen htokens (by decide) (by decide)
  obtain ⟨found, closing, back, hfound, hclosing, hback, hreads⟩ := hinner more hmore
  have hoperand : (operand finish opening more).Reads found back :=
    (operand_reads_group (congrArg Prod.fst hopening)).mpr ⟨closing, hreads, hclosing⟩
  exact ⟨found, back, hfound, hback, fun floor result rest _ => nextExpr_of_operand hoperand⟩

theorem recovered_name {token : Token} {after : Bytes} (h : token.IsName)
    (hafter : Ends .ident after) : Recovered finish (.ident ⟨token, token.lexeme⟩) after := by
  have hkind := h.1
  refine recovered_atom rfl (hkind ▸ h.written) (hkind ▸ hafter) fun other more hother => ?_
  refine ⟨_, ?_, (operand_reads_ident ((congrArg Prod.fst hother).trans hkind)).mpr ⟨rfl, rfl⟩⟩
  have hlexeme : other.lexeme = token.lexeme := congrArg Prod.snd hother
  rw [Node.unplaced, Node.unplaced, Ident.unplaced, Ident.unplaced, Token.unplaced_eq hother,
    hlexeme]

theorem recovered_numeral {token : Token} {value : Float} {after : Bytes}
    (hkind : token.kind = .int) (h : IsNumeral token.lexeme)
    (hfits : Number.nearest? (digitsValue token.lexeme) 1 = some value)
    (hafter : Ends .ident after) : Recovered finish (.number token value) after := by
  have hends : Ends .int after := fun b hb hdigit =>
    hafter b hb (List.mem_append_right letters hdigit)
  refine recovered_atom rfl (hkind ▸ .numeral h) (hkind ▸ hends) fun other more hother => ?_
  have hlexeme : other.lexeme = token.lexeme := congrArg Prod.snd hother
  have hvalue : Number.nearest? (digitsValue other.lexeme) 1 = some value := by rw [hlexeme, hfits]
  refine ⟨.number other value, ?_, ?_⟩
  · rw [Node.unplaced, Node.unplaced, Token.unplaced_eq hother]
  · exact (operand_reads_int ((congrArg Prod.fst hother).trans hkind)).mpr ⟨value, hvalue, rfl, rfl⟩

theorem recovered_boolean {token : Token} {value : Bool} {after : Bytes}
    (h : token.item = if value then (.trueWord, utf8 "true") else (.falseWord, utf8 "false"))
    (hafter : Ends .ident after) : Recovered finish (.boolean token value) after := by
  have hword : (token.kind, token.lexeme) ∈ reserved := by
    rw [show (token.kind, token.lexeme) = token.item from rfl, h]
    cases value <;> decide
  refine recovered_atom rfl (.word hword) ?_ fun other more hother => ?_
  · rw [Ends, Kind.continuation_of_mem_reserved hword]
    exact hafter
  · refine ⟨.boolean other value, ?_, ?_⟩
    · rw [Node.unplaced, Node.unplaced, Token.unplaced_eq hother]
    · have hkind := congrArg Prod.fst (hother.trans h)
      cases value with
      | false => exact (operand_reads_false hkind).mpr ⟨rfl, rfl⟩
      | true => exact (operand_reads_true hkind).mpr ⟨rfl, rfl⟩

/-- A sign in front of a `Simple` expression does not grow into it. -/
theorem Simple.ends {node : Node} (h : Simple node) {op : Kind × Bytes} (hop : op ∈ prefixSigns)
    (after : Bytes) : Ends op.1 (node.render ++ after) := by
  -- a name, a numeral, a truth value and an opening parenthesis remain apart from the sign
  have hall : ∀ op ∈ prefixSigns, op.1.mayTouch .ident ∧ op.1.mayTouch .int ∧
      op.1.mayTouch .trueWord ∧ op.1.mayTouch .falseWord ∧ op.1.mayTouch .openParen := by decide
  obtain ⟨hident, hint, htrue, hfalse, hparen⟩ := hall op hop
  have hopening : Written .openParen (utf8 "(") (utf8 "(") := .sign (by decide)
  induction h generalizing after with
  | name h => exact h.written.ends hident after
  | numeral _ h _ => exact (Written.numeral h).ends hint after
  | @boolean token value h =>
    have hlexeme := congrArg Prod.snd h
    rw [show (Node.boolean token value).render = token.item.2 from rfl, hlexeme]
    cases value with
    | false => exact (Written.word (by decide)).ends hfalse after
    | true => exact (Written.word (by decide)).ends htrue after
  | prefixOp _ _ _ =>
    rw [Node.render, List.append_assoc, List.append_assoc, List.append_assoc]
    exact hopening.ends hparen _
  | infixOp _ _ _ _ _ =>
    simp only [Node.render, List.append_assoc]
    exact hopening.ends hparen _
  | call _ _ _ ih _ =>
    simp only [Node.render, List.append_assoc]
    exact ih _

theorem recovered_prefixOp {token : Token} {right : Node} {after : Bytes}
    (h : token.item ∈ prefixSigns) (hsimple : Simple right)
    (hright : Recovered finish right (utf8 ")" ++ after)) :
    Recovered finish (.prefixOp token token.lexeme right) after := by
  have hall : ∀ op ∈ prefixSigns, op ∈ signTexts ∧ (op.1 = .bang ∨ op.1 = .minus) := by decide
  obtain ⟨hsign, hkind⟩ := hall _ h
  refine recovered_group (token.lexeme ++ right.render) rfl fun tokens htokens => ?_
  rw [List.append_assoc] at htokens
  obtain ⟨op, more, rfl, hop, hmore⟩ := exists_token htokens (.sign hsign) (hsimple.ends h _)
  obtain ⟨found, closing, back, hfound, hclosing, hback, hreads⟩ :=
    hright.upTo .closeParen .unary (by decide) (by decide) rfl (by decide) hmore
  refine ⟨.prefixOp op op.lexeme found, closing, back, ?_, hclosing, hback, ?_⟩
  · have hlexeme : op.lexeme = token.lexeme := congrArg Prod.snd hop
    rw [Node.unplaced, Node.unplaced, Token.unplaced_eq hop, hlexeme, hfound]
  · rw [show token.item.1 = op.kind from (congrArg Prod.fst hop).symm] at hkind
    have hoperand := (operand_reads_unary hkind).mpr ⟨found, hreads, rfl⟩
    exact nextExpr_of_operand hoperand (climb_before (by rw [hclosing]; rfl) _ _ _)

theorem recovered_infixOp {token : Token} {left right : Node} {after : Bytes}
    (h : token.item ∈ infixSigns)
    (hleft : ∀ after, Ends .ident after → Recovered finish left after)
    (hright : Recovered finish right (utf8 ")" ++ after)) :
    Recovered finish (.infixOp token token.lexeme left right) after := by
  have hall : ∀ op ∈ infixSigns, op ∈ signTexts ∧ op.1 ≠ .openParen ∧
      Precedence.lowest.rank < op.1.precedence.rank ∧
      op.1.precedence.rank < Precedence.call.rank := by decide
  obtain ⟨hsign, hnocall, hbinds, hbelow⟩ := hall _ h
  have hblank : IsGap (utf8 " ") := by decide
  refine recovered_group
    (left.render ++ (utf8 " " ++ (token.lexeme ++ (utf8 " " ++ right.render))))
    (by simp only [Node.render, List.append_assoc]) fun tokens htokens => ?_
  simp only [List.append_assoc] at htokens
  -- the left operand is read at the lowest floor, so the operator behind it is climbed over
  obtain ⟨foundLeft, behind, hfoundLeft, hbehind, hclimb⟩ :=
    hleft _ (hblank.ends (by decide) _ _) tokens htokens
  rw [items_gap hblank] at hbehind
  obtain ⟨op, more, rfl, hop, hmore⟩ :=
    exists_token hbehind (.sign hsign) (hblank.ends (by decide) _ _)
  rw [items_gap hblank] at hmore
  have hkind : op.kind = token.item.1 := congrArg Prod.fst hop
  rw [← hkind] at hnocall hbinds hbelow
  obtain ⟨foundRight, closing, back, hfoundRight, hclosing, hback, hreads⟩ :=
    hright.upTo .closeParen op.kind.precedence (by decide) (by decide) rfl hbelow hmore
  refine ⟨.infixOp op op.lexeme foundLeft foundRight, closing, back, ?_, hclosing, hback, ?_⟩
  · have hlexeme : op.lexeme = token.lexeme := congrArg Prod.snd hop
    rw [Node.unplaced, Node.unplaced, Token.unplaced_eq hop, hlexeme, hfoundLeft, hfoundRight]
  · refine hclimb .lowest _ _ (by decide) ((climb_reads_operator hnocall hbinds).mpr ?_)
    exact ⟨foundRight, _, hreads, climb_before (by rw [hclosing]; rfl) _ _ _⟩

/-- What `nextExpr` reads starts with a token that is no closing parenthesis and starts no other
statement. -/
theorem exists_expr_of_nextExpr {floor : Precedence} {tokens rest : List Token} {node : Node}
    (h : (nextExpr finish floor tokens).Reads node rest) :
    ∃ token more, tokens = token :: more ∧ (expr finish floor token more).Reads node rest ∧
      token.kind ≠ .closeParen ∧ token.kind ≠ .letWord ∧ token.kind ≠ .returnWord := by
  cases tokens with
  | nil => exact absurd h nextExpr_reads_nil
  | cons token more =>
    have hexpr := nextExpr_reads_cons.mp h
    obtain ⟨left, middle, hoperand, -⟩ := expr_reads.mp hexpr
    have hall : ∀ kind ∈ [Kind.bang, .minus, .ident, .int, .string, .trueWord, .falseWord,
        .openParen, .ifWord, .fnWord],
        kind ≠ .closeParen ∧ kind ≠ .letWord ∧ kind ≠ .returnWord := by decide
    exact ⟨token, more, rfl, hexpr, hall _ (kind_of_operand_reads hoperand)⟩

/-- What is written behind the first argument of a call: the other `args`, each with a comma in
front, and the closing parenthesis. -/
def moreText (args : List Node) (after : Bytes) : Bytes :=
  (Node.renderEach args).flatMap (utf8 ", " ++ ·) ++ (utf8 ")" ++ after)

theorem moreText_nil (after : Bytes) : moreText [] after = utf8 ")" ++ after := rfl

theorem moreText_cons (arg : Node) (args : List Node) (after : Bytes) :
    moreText (arg :: args) after =
      utf8 "," ++ (utf8 " " ++ (arg.render ++ moreText args after)) := by
  have hseparator : utf8 ", " = utf8 "," ++ utf8 " " := rfl
  simp only [moreText, Node.renderEach, List.flatMap_cons, hseparator, List.append_assoc]

theorem ends_moreText (args : List Node) (after : Bytes) : Ends .ident (moreText args after) := by
  have hclosing : Written .closeParen (utf8 ")") (utf8 ")") := .sign (by decide)
  have hcomma : Written .comma (utf8 ",") (utf8 ",") := .sign (by decide)
  cases args with
  | nil => exact hclosing.ends (by decide) after
  | cons arg args =>
    rw [moreText_cons]
    exact hcomma.ends (by decide) _

variable (finish) in
/-- The arguments behind a first one are read back by `moreArgs`. -/
def MoreRecovered (args : List Node) (after : Bytes) : Prop :=
  ∀ tokens : List Token, tokens.map Token.item = items (moreText args after) →
    ∃ found back, Node.unplacedEach found = Node.unplacedEach args ∧
      back.map Token.item = items after ∧ (moreArgs finish tokens).Reads found back

/-- Where `moreArgs` reads on, an expression ends. -/
theorem nextRank_of_moreArgs {tokens rest : List Token} {nodes : List Node}
    (h : (moreArgs finish tokens).Reads nodes rest) : nextRank tokens = 0 := by
  cases tokens with
  | nil => rfl
  | cons token tokens =>
    rw [nextRank_cons]
    by_cases hcomma : token.kind = .comma
    · rw [hcomma]
      rfl
    · rw [((moreArgs_reads_other hcomma).mp h).1]
      rfl

/-- An argument and the ones behind it are read back from what is written behind an opening
parenthesis or a comma. -/
theorem exists_arg {arg : Node} {args : List Node} {after : Bytes} {tokens : List Token}
    (harg : Recovered finish arg (moreText args after)) (hargs : MoreRecovered finish args after)
    (htokens : tokens.map Token.item = items (arg.render ++ moreText args after)) :
    ∃ value middle values back,
      Node.unplacedEach (value :: values) = Node.unplacedEach (arg :: args) ∧
      back.map Token.item = items after ∧ (nextExpr finish .lowest tokens).Reads value middle ∧
      (moreArgs finish middle).Reads values back := by
  obtain ⟨value, middle, hvalue, hmiddle, hclimb⟩ := harg tokens htokens
  obtain ⟨values, back, hvalues, hback, hmore⟩ := hargs middle hmiddle
  have hstops := Nat.le_of_eq (nextRank_of_moreArgs hmore)
  refine ⟨value, middle, values, back, ?_, hback, ?_, hmore⟩
  · rw [Node.unplacedEach, Node.unplacedEach, hvalue, hvalues]
  · exact hclimb .lowest _ _ (by decide) ((climb_reads_stop hstops).mpr ⟨rfl, rfl⟩)

theorem moreRecovered {args : List Node}
    (hargs : ∀ arg ∈ args, ∀ after, Ends .ident after → Recovered finish arg after)
    (after : Bytes) : MoreRecovered finish args after := by
  induction args with
  | nil =>
    intro tokens htokens
    rw [moreText_nil] at htokens
    obtain ⟨closing, back, rfl, hclosing, hback⟩ :=
      exists_sign .closeParen htokens (by decide) (by decide)
    have hkind : closing.kind = .closeParen := congrArg Prod.fst hclosing
    refine ⟨[], back, rfl, hback, ?_⟩
    exact (moreArgs_reads_other (by rw [hkind]; decide)).mpr ⟨hkind, rfl, rfl⟩
  | cons arg args ih =>
    intro tokens htokens
    obtain ⟨harg, hothers⟩ := List.forall_mem_cons.mp hargs
    rw [moreText_cons] at htokens
    obtain ⟨comma, more, rfl, hcomma, hmore⟩ :=
      exists_sign .comma htokens (by decide) (by decide)
    -- the blank behind the comma is no token
    rw [items_gap (by decide)] at hmore
    obtain ⟨value, middle, values, back, hvalues, hback, hvalue, hreads⟩ :=
      exists_arg (harg _ (ends_moreText args after)) (ih hothers) hmore
    refine ⟨value :: values, back, hvalues, hback, ?_⟩
    exact (moreArgs_reads_comma (congrArg Prod.fst hcomma)).mpr
      ⟨value, middle, values, hvalue, hreads, rfl⟩

theorem Bytes.join_cons (separator piece : Bytes) (more : List Bytes) :
    join separator (piece :: more) = piece ++ more.flatMap (separator ++ ·) := by
  induction more generalizing piece with
  | nil => simp
  | cons next more ih =>
    rw [join_cons_cons, ih, List.flatMap_cons, List.append_assoc, List.append_assoc]

theorem exists_args {args : List Node}
    (hargs : ∀ arg ∈ args, ∀ after, Ends .ident after → Recovered finish arg after)
    {after : Bytes} {tokens : List Token}
    (htokens : tokens.map Token.item =
      items (Bytes.join (utf8 ", ") (Node.renderEach args) ++ (utf8 ")" ++ after))) :
    ∃ found back, Node.unplacedEach found = Node.unplacedEach args ∧
      back.map Token.item = items after ∧ (Parse.args finish tokens).Reads found back := by
  cases args with
  | nil =>
    rw [Node.renderEach, Bytes.join_nil, List.nil_append] at htokens
    obtain ⟨closing, back, rfl, hclosing, hback⟩ :=
      exists_sign .closeParen htokens (by decide) (by decide)
    exact ⟨[], back, rfl, hback, (args_reads_close (congrArg Prod.fst hclosing)).mpr ⟨rfl, rfl⟩⟩
  | cons arg args =>
    obtain ⟨harg, hothers⟩ := List.forall_mem_cons.mp hargs
    rw [Node.renderEach, Bytes.join_cons, List.append_assoc] at htokens
    obtain ⟨value, middle, values, back, hvalues, hback, hvalue, hreads⟩ :=
      exists_arg (harg _ (ends_moreText args after)) (moreRecovered hothers after) htokens
    -- no expression starts with a closing parenthesis, so the arguments go on
    obtain ⟨token, more, rfl, hexpr, hkind, -⟩ := exists_expr_of_nextExpr hvalue
    refine ⟨value :: values, back, hvalues, hback, ?_⟩
    exact (args_reads_next hkind).mpr ⟨value, middle, values, hexpr, hreads, rfl⟩

theorem recovered_call {token : Token} {callee : Node} {args : List Node} {after : Bytes}
    (h : token.item = (.openParen, utf8 "("))
    (hcallee : ∀ after, Ends .ident after → Recovered finish callee after)
    (hargs : ∀ arg ∈ args, ∀ after, Ends .ident after → Recovered finish arg after) :
    Recovered finish (.call token callee args) after := by
  have hopening : Written .openParen (utf8 "(") (utf8 "(") := .sign (by decide)
  intro tokens htokens
  simp only [Node.render, List.append_assoc] at htokens
  obtain ⟨found, behind, hfound, hbehind, hclimb⟩ :=
    hcallee _ (hopening.ends (by decide) _) tokens htokens
  obtain ⟨opening, more, rfl, hitem, hmore⟩ :=
    exists_sign .openParen hbehind (by decide) (by decide)
  obtain ⟨values, back, hvalues, hback, hreads⟩ := exists_args hargs hmore
  refine ⟨.call opening found values, back, ?_, hback, fun floor result rest hfloor hrest => ?_⟩
  · rw [Node.unplaced, Node.unplaced, Token.unplaced_eq (hitem.trans h.symm), hfound, hvalues]
  · -- a call binds more tightly than any floor below it, so the callee is what is called
    have hkind : opening.kind = .openParen := congrArg Prod.fst hitem
    have hbinds : floor.rank < opening.kind.precedence.rank := by
      rw [hkind]
      exact hfloor
    exact hclimb floor result rest hfloor
      ((climb_reads_call hkind hbinds).mpr ⟨values, back, hreads, hrest⟩)

variable (finish) in
/-- **Every simple expression is read back**, where nothing follows that continues a name: by
induction on `Simple`, with one lemma for each form. -/
theorem Simple.recovered {node : Node} (h : Simple node) (after : Bytes)
    (hafter : Ends .ident after) : Recovered finish node after := by
  induction h generalizing after with
  | name h => exact recovered_name h hafter
  | numeral hkind h hfits => exact recovered_numeral hkind h hfits hafter
  | boolean h => exact recovered_boolean h hafter
  | prefixOp h hright ih => exact recovered_prefixOp h hright (ih _ (ends_moreText [] after))
  | infixOp h _ _ ihleft ihright =>
    exact recovered_infixOp h ihleft (ihright _ (ends_moreText [] after))
  | call h _ _ ihcallee ihargs => exact recovered_call h ihcallee ihargs

end

/-! ### Programs -/

section

variable (finish : Token)

/-- The `value` of a statement is read back up to its semicolon. -/
theorem Simple.exists_value {value : Node} (h : Simple value) {after : Bytes} {tokens : List Token}
    (htokens : tokens.map Token.item = items (value.render ++ (utf8 ";" ++ after))) :
    ∃ found closing back, found.unplaced = value.unplaced ∧ closing.kind = .semicolon ∧
      back.map Token.item = items after ∧
      (nextExpr finish .lowest tokens).Reads found (closing :: back) := by
  have hsemicolon : Written .semicolon (utf8 ";") (utf8 ";") := .sign (by decide)
  have hvalue := h.recovered finish _ (hsemicolon.ends (by decide) after)
  exact hvalue.upTo .semicolon .lowest (by decide) (by decide) rfl (by decide) htokens

/-- A `SimpleStmt` is read back by `stmt`, and reading goes on behind its semicolon. -/
theorem SimpleStmt.recovered {stmt : Node} (h : SimpleStmt stmt) {after : Bytes}
    {tokens : List Token} (htokens : tokens.map Token.item = items (stmt.render ++ after)) :
    ∃ token more found back, tokens = token :: more ∧ found.unplaced = stmt.unplaced ∧
      back.map Token.item = items after ∧ (Parse.stmt finish token more).Reads found back := by
  have hblank : IsGap (utf8 " ") := by decide
  cases h with
  | @letStmt token name value h hname hvalue =>
    -- the tokens are taken from the text one by one, up to the value
    have hword : token.lexeme = utf8 "let" := congrArg Prod.snd h
    have hsign : utf8 " = " = utf8 " " ++ (utf8 "=" ++ utf8 " ") := rfl
    simp only [Node.render, hword, hsign, List.append_assoc] at htokens
    obtain ⟨word, tokens, rfl, hitem, htokens⟩ :=
      exists_token htokens (.word (by decide)) (hblank.ends (by decide) .letWord _)
    rw [items_gap hblank] at htokens
    obtain ⟨id, tokens, rfl, hid, htokens⟩ :=
      exists_token htokens hname.written (hblank.ends (by decide) _ _)
    rw [items_gap hblank] at htokens
    obtain ⟨sign, tokens, rfl, hequal, htokens⟩ :=
      exists_token htokens (.sign (by decide)) (hblank.ends (by decide) .equal _)
    rw [items_gap hblank] at htokens
    obtain ⟨found, closing, back, hfound, hclosing, hback, hreads⟩ :=
      hvalue.exists_value finish htokens
    have hsame : id.item = name.item := hid.trans (congrArg (·, name.lexeme) hname.1.symm)
    have hlexeme : id.lexeme = name.lexeme := congrArg Prod.snd hid
    refine ⟨word, _, .letStmt word ⟨id, id.lexeme⟩ found, back, rfl, ?_, hback, ?_⟩
    · rw [Node.unplaced, Node.unplaced, Ident.unplaced, Ident.unplaced, hfound, hlexeme,
        Token.unplaced_eq (hitem.trans h.symm), Token.unplaced_eq hsame]
    · exact (stmt_reads_let (congrArg Prod.fst hitem)).mpr
        ⟨id, sign, tokens, found, _, rfl, congrArg Prod.fst hid, congrArg Prod.fst hequal, hreads,
          rfl, if_pos hclosing⟩
  | @returnStmt token value h hvalue =>
    have hword : token.lexeme = utf8 "return" := congrArg Prod.snd h
    simp only [Node.render, hword, List.append_assoc] at htokens
    obtain ⟨word, tokens, rfl, hitem, htokens⟩ :=
      exists_token htokens (.word (by decide)) (hblank.ends (by decide) .returnWord _)
    rw [items_gap hblank] at htokens
    obtain ⟨found, closing, back, hfound, hclosing, hback, hreads⟩ :=
      hvalue.exists_value finish htokens
    refine ⟨word, tokens, .returnStmt word found, back, rfl, ?_, hback, ?_⟩
    · rw [Node.unplaced, Node.unplaced, hfound, Token.unplaced_eq (hitem.trans h.symm)]
    · exact (stmt_reads_return (congrArg Prod.fst hitem)).mpr
        ⟨found, _, hreads, rfl, if_pos hclosing⟩

/-- A `SimpleProgram` is read back by `program` from tokens that its text gives. -/
theorem SimpleProgram.recovered {nodes : Program} (h : SimpleProgram nodes) {tokens : List Token}
    (htokens : tokens.map Token.item = items nodes.render) :
    ∃ found, Node.unplacedEach found = Node.unplacedEach nodes ∧
      (program finish tokens).Reads found [] := by
  induction h generalizing tokens with
  | nil =>
    rw [Program.render, Node.renderAll, items_nil, List.map_eq_nil_iff] at htokens
    rw [htokens]
    exact ⟨[], rfl, program_reads_nil.mpr ⟨rfl, rfl⟩⟩
  | @last first expr h =>
    have hnil : Ends .ident [] := fun b hb => absurd hb (by simp)
    rw [Program.render, Node.renderAll, Node.renderAll, Node.render] at htokens
    obtain ⟨found, back, hfound, hback, hclimb⟩ := h.recovered finish [] hnil tokens htokens
    rw [items_nil, List.map_eq_nil_iff] at hback
    have hreads := hclimb .lowest _ _ (by decide)
      ((climb_reads_stop (by rw [hback]; exact Nat.le_refl 0)).mpr ⟨rfl, hback⟩)
    -- the first token may be a parenthesis that the tree does not have
    obtain ⟨token, more, rfl, hexpr, -, hlet, hreturn⟩ := exists_expr_of_nextExpr hreads
    refine ⟨[.exprStmt token found], ?_, program_reads_cons.mpr ⟨.exprStmt token found, [], [], ?_⟩⟩
    · simp only [Node.unplacedEach, Node.unplaced, hfound]
    · have hstmt := (stmt_reads_expr hlet hreturn).mpr ⟨found, [], hexpr, rfl, rfl⟩
      exact ⟨hstmt, program_reads_nil.mpr ⟨rfl, rfl⟩, rfl⟩
  | next hstmt _ ih =>
    rw [Program.render, Node.renderAll] at htokens
    obtain ⟨token, more, found, back, rfl, hfound, hback, hreads⟩ := hstmt.recovered finish htokens
    obtain ⟨others, hothers, hrest⟩ := ih hback
    refine ⟨found :: others, ?_, program_reads_cons.mpr ⟨found, back, others, hreads, hrest, rfl⟩⟩
    rw [Node.unplacedEach, Node.unplacedEach, hfound, hothers]

end

namespace Cursor

theorem parse_of_simple (file : Bytes) {nodes : Program} (h : SimpleProgram nodes) :
    let parsed := (start file nodes.render).parse
    parsed.diagnostics = [] ∧ Node.unplacedEach parsed.program = Node.unplacedEach nodes := by
  have htokens : (start file nodes.render).tokens.map Token.item = items nodes.render :=
    map_item_tokens _
  obtain ⟨found, hfound, hresult, -, hclean⟩ := h.recovered _ htokens
  refine ⟨hclean, ?_⟩
  rw [parse, hresult]
  exact hfound

/-- **A simple program is read back from its text**: without a complaint, and as the same tree up to
positions and the first tokens of expressions that stand as statements.  So no two simple programs
that differ in anything else have the same text. -/
theorem parse_render (file : Bytes) :
    (∀ nodes : Program, SimpleProgram nodes →
      let parsed := (start file nodes.render).parse
      parsed.diagnostics = [] ∧ Node.unplacedEach parsed.program = Node.unplacedEach nodes) ∧
    ∀ nodes others : Program, SimpleProgram nodes → SimpleProgram others →
      nodes.render = others.render → Node.unplacedEach nodes = Node.unplacedEach others := by
  refine ⟨fun nodes h => parse_of_simple file h, fun nodes others hnodes hothers htext => ?_⟩
  have hfirst := (parse_of_simple file hnodes).2
  rw [htext, (parse_of_simple file hothers).2] at hfirst
  exact hfirst.symm

/-- The program with the text `let f = (-5)(a, (true == a));f()` is read back from it. -/
theorem parse_render_called_prefix :
    let token (kind : Kind) (lexeme : String) : Token := ⟨kind, utf8 lexeme, default⟩
    let name (lexeme : String) : Ident := ⟨token .ident lexeme, utf8 lexeme⟩
    let negated : Node := .prefixOp (token .minus "-") (utf8 "-") (.number (token .int "5") 5.0)
    let compared : Node := .infixOp (token .equalEqual "==") (utf8 "==")
      (.boolean (token .trueWord "true") true) (.ident (name "a"))
    let nodes : Program :=
      [.letStmt (token .letWord "let") (name "f")
          (.call (token .openParen "(") negated [.ident (name "a"), compared]),
        .exprStmt default (.call (token .openParen "(") (.ident (name "f")) [])]
    let parsed := (start [] (utf8 "let f = (-5)(a, (true == a));f()")).parse
    SimpleProgram nodes ∧ nodes.render = utf8 "let f = (-5)(a, (true == a));f()" ∧
      parsed.diagnostics = [] ∧ Node.unplacedEach parsed.program = Node.unplacedEach nodes := by
  intro token name negated compared nodes parsed
  have ha : Simple (.ident (name "a")) := .name ⟨rfl, by decide, by decide⟩
  have hf : Simple (.ident (name "f")) := .name ⟨rfl, by decide, by decide⟩
  have hnegated : Simple negated := .prefixOp (by decide) (.numeral rfl (by decide) (by decide))
  have hcompared : Simple compared := .infixOp (by decide) (.boolean rfl) ha
  have hargs : ∀ arg ∈ [.ident (name "a"), compared], Simple arg := by
    simp only [List.forall_mem_cons]
    exact ⟨ha, hcompared, fun _ h => absurd h List.not_mem_nil⟩
  have hsimple : SimpleProgram nodes :=
    .next (.letStmt rfl ⟨rfl, by decide, by decide⟩ (.call rfl hnegated hargs))
      (.last (.call rfl hf fun _ h => absurd h List.not_mem_nil))
  have hrender : nodes.render = utf8 "let f = (-5)(a, (true == a));f()" := rfl
  have hparse := (parse_render []).1 nodes hsimple
  rw [hrender] at hparse
  exact ⟨hsimple, hrender, hparse⟩

end Cursor

end TreeWalk
