import Mathlib.Data.List.Forall2
import TreeWalk.Tree.Parse

/-!
# Two readings side by side

The parser looks at the kinds and texts of tokens, and hands the tokens on without looking at
anything else of them.  So it does the same with two lists of tokens that agree in kinds and texts
(`Token.Alike`): it builds trees in the same way and complains of the same things.

What the tokens have to do with each other beyond that is left open, and so is what the trees have
to do with each other: a `Parse.Kinship` is a relation of tokens with relations of what is built of
them, one for each sort of tree, that the parser's ways of building keep.  Then two readings of
related tokens come to related trees, leave related tokens, and complain about related places.

A property of trees is a relation too, one that looks at the first tree only; for such relations the
second reading may be the first one.

## Main definitions

* `Token.Alike`, `Diagnostic.Alike` — the same up to positions.
* `Parse.Kinship` — relations of tokens and trees that the parser's ways of building keep.
* `Parse.Twins` — two readings that come to related results.

## Main results

* `Parse.stmt_twins`, `Parse.expr_twins` — **related tokens are read into related trees.**
* `Cursor.parse_twins` — so are related texts.
-/

namespace TreeWalk

section

variable (P : Position → Position → Prop)

/-- The same token in another place, which `P` relates to the first. -/
structure Token.Alike (token twin : Token) : Prop where
  /-- Of the same kind. -/
  kind : token.kind = twin.kind
  /-- With the same text. -/
  lexeme : token.lexeme = twin.lexeme
  /-- In related places. -/
  pos : P token.pos twin.pos

/-- The same message about another place, which `P` relates to the first. -/
structure Diagnostic.Alike (diagnostic twin : Diagnostic) : Prop where
  /-- The messages. -/
  message : diagnostic.message = twin.message
  /-- The places. -/
  pos : P diagnostic.pos twin.pos

end

namespace Parse

/-- The parser's ways of building keep relations: `T` of tokens in places that are related by `P`,
`I` of names, `E` of expressions, `S` of statements, `B` of blocks, and `A` of what stands in the
place of the second block of a choice. -/
structure Kinship (P : Position → Position → Prop) (T : Token → Token → Prop)
    (I : Ident → Ident → Prop) (E S B A : Node → Node → Prop) : Prop where
  /-- Related tokens are the same up to positions. -/
  alike : ∀ {token twin}, T token twin → token.Alike P twin
  /-- Names of functions, bindings and parameters are tokens with their texts. -/
  name : ∀ {token twin}, T token twin → I ⟨token, token.lexeme⟩ ⟨twin, twin.lexeme⟩
  /-- Names. -/
  ident : ∀ {id twin}, I id twin → E (.ident id) (.ident twin)
  /-- Numbers. -/
  number : ∀ {token twin}, T token twin → ∀ value, E (.number token value) (.number twin value)
  /-- Quoted texts. -/
  text : ∀ {token twin}, T token twin → E (.text token token.lexeme) (.text twin twin.lexeme)
  /-- Truth values. -/
  boolean : ∀ {token twin}, T token twin → ∀ value, E (.boolean token value) (.boolean twin value)
  /-- Operators before operands. -/
  prefixOp : ∀ {token twin right right'}, T token twin → token.kind = .bang ∨ token.kind = .minus →
    E right right' → E (.prefixOp token token.lexeme right) (.prefixOp twin twin.lexeme right')
  /-- Operators between operands: whatever binds what stands before it and opens no call. -/
  infixOp : ∀ {token twin left left' right right'}, T token twin →
    0 < token.kind.precedence.rank → token.kind ≠ .openParen → E left left' → E right right' →
    E (.infixOp token token.lexeme left right) (.infixOp twin twin.lexeme left' right')
  /-- Choices. -/
  ifElse : ∀ {token twin cond cond' yes yes' no no'}, T token twin → E cond cond' → B yes yes' →
    A no no' → E (.ifElse token cond yes no) (.ifElse twin cond' yes' no')
  /-- Functions. -/
  function : ∀ {token twin params params' body body'}, T token twin →
    List.Forall₂ I params params' → B body body' →
    E (.function token params body) (.function twin params' body')
  /-- Calls. -/
  call : ∀ {token twin callee callee' args args'}, T token twin → E callee callee' →
    List.Forall₂ E args args' → E (.call token callee args) (.call twin callee' args')
  /-- Bindings. -/
  letStmt : ∀ {token twin name name' value value'}, T token twin → I name name' →
    E value value' → S (.letStmt token name value) (.letStmt twin name' value')
  /-- Returns. -/
  returnStmt : ∀ {token twin value value'}, T token twin → E value value' →
    S (.returnStmt token value) (.returnStmt twin value')
  /-- Expressions as statements. -/
  exprStmt : ∀ {token twin expr expr'}, T token twin → E expr expr' →
    S (.exprStmt token expr) (.exprStmt twin expr')
  /-- Blocks, from which statements may have been left out. -/
  block : ∀ {brace brace' stmts stmts'}, T brace brace' → List.Forall₂ S stmts stmts' →
    B (.block brace stmts) (.block brace' stmts')
  /-- The second block of a choice may be missing. -/
  hole : A .hole .hole
  /-- If it is there, it is a block. -/
  other : ∀ {no no'}, B no no' → A no no'

variable {P : Position → Position → Prop} {T : Token → Token → Prop} {I : Ident → Ident → Prop}
  {E S B A : Node → Node → Prop} {α β γ δ : Type} {bound bound' : Nat} {Q : α → β → Prop}
  {R : γ → δ → Prop}

/-- Two readings come to results that are related by `Q`, with tokens left that are related by `T`,
and with the same complaints about places that are related by `P`. -/
structure Twins (P : Position → Position → Prop) (T : Token → Token → Prop) (Q : α → β → Prop)
    (parse : Parse α bound) (twin : Parse β bound') : Prop where
  /-- What is read. -/
  result : Option.Rel Q parse.result twin.result
  /-- What is left. -/
  rest : List.Forall₂ T parse.rest twin.rest
  /-- What is wrong. -/
  diagnostics : List.Forall₂ (Diagnostic.Alike P) parse.diagnostics twin.diagnostics

theorem accept_twins {value : α} {value' : β} (hvalue : Q value value') {rest rest' : List Token}
    (hrest : List.Forall₂ T rest rest') (h : rest.length ≤ bound) (h' : rest'.length ≤ bound') :
    (accept value rest h).Twins P T Q (accept value' rest' h') where
  result := .some hvalue
  rest := hrest
  diagnostics := .nil

theorem fail_twins {complaint complaint' : Complaint} (hcomplaint : complaint = complaint')
    {pos pos' : Position} (hpos : P pos pos') {rest rest' : List Token}
    (hrest : List.Forall₂ T rest rest') (h : rest.length ≤ bound) (h' : rest'.length ≤ bound') :
    (fail complaint pos rest h : Parse α bound).Twins P T Q (fail complaint' pos' rest' h') where
  result := .none
  rest := hrest
  diagnostics := .cons ⟨congrArg Complaint.message hcomplaint, hpos⟩ .nil

namespace Twins

theorem widen {parse : Parse α bound} {twin : Parse β bound'} (hparse : parse.Twins P T Q twin)
    {wider wider' : Nat} (h : bound ≤ wider) (h' : bound' ≤ wider') :
    (parse.widen h).Twins P T Q (twin.widen h') := ⟨hparse.result, hparse.rest, hparse.diagnostics⟩

/-- `Parse.andThen`: reading on behind constructs that are `Twins`. -/
theorem andThen {first : Parse α bound} {first' : Parse β bound'}
    {next : α → (rest : List Token) → rest.length ≤ bound → Parse γ rest.length}
    {next' : β → (rest : List Token) → rest.length ≤ bound' → Parse δ rest.length}
    (hfirst : first.Twins P T Q first')
    (hnext : ∀ value value' rest rest' h h', Q value value' → List.Forall₂ T rest rest' →
      (next value rest h).Twins P T R (next' value' rest' h')) :
    (first.andThen next).Twins P T R (first'.andThen next') := by
  obtain ⟨result, rest, diagnostics, h⟩ := first
  obtain ⟨result', rest', diagnostics', h'⟩ := first'
  obtain ⟨hresult, hrest, hdiagnostics⟩ := hfirst
  cases hresult with
  | none => exact ⟨.none, hrest, hdiagnostics⟩
  | some hvalue =>
    have hsecond := hnext _ _ rest rest' h h' hvalue hrest
    exact ⟨hsecond.result, hsecond.rest, List.rel_append hdiagnostics hsecond.diagnostics⟩

/-- `Parse.collect`: of statements in a row the same ones are left out. -/
theorem collect {first : Parse α bound} {first' : Parse β bound'}
    {more : (rest : List Token) → rest.length ≤ bound → Parse (List α) rest.length}
    {more' : (rest : List Token) → rest.length ≤ bound' → Parse (List β) rest.length}
    (hfirst : first.Twins P T Q first')
    (hmore : ∀ rest rest' h h', List.Forall₂ T rest rest' →
      (more rest h).Twins P T (List.Forall₂ Q) (more' rest' h')) :
    (first.collect more).Twins P T (List.Forall₂ Q) (first'.collect more') := by
  obtain ⟨result, rest, diagnostics, h⟩ := first
  obtain ⟨result', rest', diagnostics', h'⟩ := first'
  obtain ⟨hresult, hrest, hdiagnostics⟩ := hfirst
  have hsecond := hmore rest rest' h h' hrest
  refine ⟨?_, hsecond.rest, List.rel_append hdiagnostics hsecond.diagnostics⟩
  -- a statement is kept in both rows or in none
  have hkept : List.Forall₂ Q result.toList result'.toList := by
    cases hresult with
    | none => exact .nil
    | some hvalue => exact .cons hvalue .nil
  show Option.Rel _ ((more rest h).result.map (result.toList ++ ·))
    ((more' rest' h').result.map (result'.toList ++ ·))
  have hothers := hsecond.result
  generalize (more rest h).result = others at hothers
  generalize (more' rest' h').result = others' at hothers
  cases hothers with
  | none => exact .none
  | some hothers => exact .some (List.rel_append hkept hothers)

end Twins

/-! ### Every construct -/

section

variable {finish finish' : Token} {token token' : Token} {tokens tokens' : List Token}

theorem expect_twins (h : Kinship P T I E S B A) (hfinish : finish.Alike P finish') (kind : Kind)
    (htokens : List.Forall₂ T tokens tokens') :
    (expect finish kind tokens).Twins P T T (expect finish' kind tokens') := by
  cases htokens with
  | nil =>
    rw [expect, expect]
    exact fail_twins (by rw [hfinish.kind]) hfinish.pos .nil _ _
  | cons htoken hrest =>
    rw [expect, expect, ← (h.alike htoken).kind]
    split
    · exact accept_twins htoken hrest _ _
    · exact fail_twins rfl (h.alike htoken).pos (.cons htoken hrest) _ _

theorem dropSemicolon_twins (h : Kinship P T I E S B A) (htokens : List.Forall₂ T tokens tokens') :
    List.Forall₂ T (dropSemicolon tokens) (dropSemicolon tokens') := by
  cases htokens with
  | nil => exact .nil
  | cons htoken hrest =>
    rw [dropSemicolon, dropSemicolon, ← (h.alike htoken).kind]
    split
    · exact hrest
    · exact .cons htoken hrest

theorem number_twins (h : Kinship P T I E S B A) (htoken : T token token')
    (htokens : List.Forall₂ T tokens tokens') :
    (number token tokens).Twins P T E (number token' tokens') := by
  rw [number, number, ← (h.alike htoken).lexeme]
  split
  · exact accept_twins (h.number htoken _) htokens _ _
  · exact fail_twins rfl (h.alike htoken).pos htokens _ _

theorem moreParams_twins (h : Kinship P T I E S B A) (hfinish : finish.Alike P finish')
    (tokens tokens' : List Token) (htokens : List.Forall₂ T tokens tokens') :
    (moreParams finish tokens).Twins P T (List.Forall₂ I) (moreParams finish' tokens') := by
  cases htokens with
  | nil =>
    rw [moreParams, moreParams]
    exact fail_twins (by rw [hfinish.kind]) hfinish.pos .nil _ _
  | cons htoken hrest =>
    cases hrest with
    | nil =>
      rw [moreParams, moreParams, ← (h.alike htoken).kind]
      split
      · exact fail_twins (by rw [hfinish.kind]) hfinish.pos .nil _ _
      · split
        · exact accept_twins .nil .nil _ _
        · exact fail_twins rfl (h.alike htoken).pos (.cons htoken .nil) _ _
    | @cons name name' rest rest' hname hrest =>
      rw [moreParams, moreParams, ← (h.alike htoken).kind]
      split
      · simp only [← (h.alike hname).kind]
        split
        · exact ((moreParams_twins h hfinish rest rest' hrest).widen _ _).andThen
            fun _ _ _ _ _ _ hnames hrest => accept_twins (.cons (h.name hname) hnames) hrest _ _
        · exact fail_twins rfl (h.alike hname).pos (.cons hname hrest) _ _
      · split
        · exact accept_twins .nil (.cons hname hrest) _ _
        · exact fail_twins rfl (h.alike htoken).pos (.cons htoken (.cons hname hrest)) _ _
termination_by tokens.length

theorem params_twins (h : Kinship P T I E S B A) (hfinish : finish.Alike P finish')
    (htokens : List.Forall₂ T tokens tokens') :
    (params finish tokens).Twins P T (List.Forall₂ I) (params finish' tokens') := by
  cases htokens with
  | nil =>
    rw [params, params]
    exact fail_twins (by rw [hfinish.kind]) hfinish.pos .nil _ _
  | cons htoken hrest =>
    rw [params, params, ← (h.alike htoken).kind]
    split
    · exact accept_twins .nil hrest _ _
    · split
      · exact ((moreParams_twins h hfinish _ _ hrest).widen _ _).andThen
          fun _ _ _ _ _ _ hnames hrest => accept_twins (.cons (h.name htoken) hnames) hrest _ _
      · exact fail_twins rfl (h.alike htoken).pos (.cons htoken hrest) _ _

mutual

/-- **Related tokens are read into related statements.**  The walk over the parser's functions that
compares two readings is this one, up to `moreArgs_twins`; `Kinship` says what is asked of the
relations. -/
theorem stmt_twins (h : Kinship P T I E S B A) (hfinish : finish.Alike P finish')
    (token token' : Token) (htoken : T token token') (tokens tokens' : List Token)
    (htokens : List.Forall₂ T tokens tokens') :
    (stmt finish token tokens).Twins P T S (stmt finish' token' tokens') := by
  rw [stmt.eq_def, stmt.eq_def finish', ← (h.alike htoken).kind]
  split
  · exact (expect_twins h hfinish _ htokens).andThen fun _ _ _ _ _ _ hname hrest =>
      (expect_twins h hfinish _ hrest).andThen fun _ _ rest rest' _ _ _ hrest =>
      (nextExpr_twins h hfinish .lowest rest rest' hrest).andThen fun _ _ _ _ _ _ hvalue hrest =>
      accept_twins (h.letStmt htoken (h.name hname) hvalue) (dropSemicolon_twins h hrest) _ _
  · exact (nextExpr_twins h hfinish .lowest tokens tokens' htokens).andThen
      fun _ _ _ _ _ _ hvalue hrest =>
      accept_twins (h.returnStmt htoken hvalue) (dropSemicolon_twins h hrest) _ _
  · exact (expr_twins h hfinish .lowest token token' htoken tokens tokens' htokens).andThen
      fun _ _ _ _ _ _ hexpr hrest =>
      accept_twins (h.exprStmt htoken hexpr) (dropSemicolon_twins h hrest) _ _
termination_by 5 * tokens.length + 4
decreasing_by all_goals omega

/-- The same for a block, in which the statements that are left out leave no trace. -/
theorem block_twins (h : Kinship P T I E S B A) (hfinish : finish.Alike P finish')
    (tokens tokens' : List Token) (htokens : List.Forall₂ T tokens tokens') :
    (block finish tokens).Twins P T (List.Forall₂ S) (block finish' tokens') := by
  cases htokens with
  | nil =>
    rw [block, block]
    exact fail_twins rfl hfinish.pos .nil _ _
  | @cons token token' rest rest' htoken hrest =>
    rw [block, block, ← (h.alike htoken).kind]
    split
    · exact accept_twins .nil hrest _ _
    · exact ((stmt_twins h hfinish token token' htoken rest rest' hrest).collect
        fun rest rest' _ _ hrest => block_twins h hfinish rest rest' hrest).widen _ _
termination_by 5 * tokens.length
decreasing_by all_goals (simp only [List.length_cons]; omega)

theorem nextExpr_twins (h : Kinship P T I E S B A) (hfinish : finish.Alike P finish')
    (floor : Precedence) (tokens tokens' : List Token) (htokens : List.Forall₂ T tokens tokens') :
    (nextExpr finish floor tokens).Twins P T E (nextExpr finish' floor tokens') := by
  cases htokens with
  | nil =>
    rw [nextExpr, nextExpr]
    exact fail_twins (by rw [hfinish.kind]) hfinish.pos .nil _ _
  | @cons token token' rest rest' htoken hrest =>
    rw [nextExpr, nextExpr]
    exact (expr_twins h hfinish floor token token' htoken rest rest' hrest).widen _ _
termination_by 5 * tokens.length
decreasing_by all_goals (simp only [List.length_cons]; omega)

theorem expr_twins (h : Kinship P T I E S B A) (hfinish : finish.Alike P finish')
    (floor : Precedence) (token token' : Token) (htoken : T token token')
    (tokens tokens' : List Token) (htokens : List.Forall₂ T tokens tokens') :
    (expr finish floor token tokens).Twins P T E (expr finish' floor token' tokens') := by
  rw [expr, expr]
  exact (operand_twins h hfinish token token' htoken tokens tokens' htokens).andThen
    fun left left' rest rest' _ _ hleft hrest =>
    climb_twins h hfinish floor left left' hleft rest rest' hrest
termination_by 5 * tokens.length + 3
decreasing_by all_goals omega

theorem operand_twins (h : Kinship P T I E S B A) (hfinish : finish.Alike P finish')
    (token token' : Token) (htoken : T token token') (tokens tokens' : List Token)
    (htokens : List.Forall₂ T tokens tokens') :
    (operand finish token tokens).Twins P T E (operand finish' token' tokens') := by
  rw [operand.eq_def, operand.eq_def finish', ← (h.alike htoken).kind]
  split
  · exact accept_twins (h.ident (h.name htoken)) htokens _ _
  · exact number_twins h htoken htokens
  · exact accept_twins (h.text htoken) htokens _ _
  · exact accept_twins (h.boolean htoken _) htokens _ _
  · exact accept_twins (h.boolean htoken _) htokens _ _
  · next hkind =>
    exact (nextExpr_twins h hfinish .unary tokens tokens' htokens).andThen
      fun _ _ _ _ _ _ hright hrest =>
      accept_twins (h.prefixOp htoken (.inl hkind) hright) hrest _ _
  · next hkind =>
    exact (nextExpr_twins h hfinish .unary tokens tokens' htokens).andThen
      fun _ _ _ _ _ _ hright hrest =>
      accept_twins (h.prefixOp htoken (.inr hkind) hright) hrest _ _
  · exact (nextExpr_twins h hfinish .lowest tokens tokens' htokens).andThen
      fun _ _ _ _ _ _ hinner hrest =>
      (expect_twins h hfinish _ hrest).andThen fun _ _ _ _ _ _ _ hrest =>
      accept_twins hinner hrest _ _
  · -- a choice
    exact (expect_twins h hfinish _ htokens).andThen fun _ _ rest rest' _ _ _ hrest =>
      (nextExpr_twins h hfinish .lowest rest rest' hrest).andThen fun _ _ _ _ _ _ hcond hrest =>
      (expect_twins h hfinish _ hrest).andThen fun _ _ _ _ _ _ _ hrest =>
      (expect_twins h hfinish _ hrest).andThen fun _ _ rest rest' _ _ hbrace hrest =>
      (block_twins h hfinish rest rest' hrest).andThen fun _ _ rest rest' _ _ hyes hrest =>
      (alternative_twins h hfinish rest rest' hrest).andThen fun _ _ _ _ _ _ hno hrest =>
      accept_twins (h.ifElse htoken hcond (h.block hbrace hyes) hno) hrest _ _
  · -- a function
    exact (expect_twins h hfinish _ htokens).andThen fun _ _ _ _ _ _ _ hrest =>
      (params_twins h hfinish hrest).andThen fun _ _ _ _ _ _ hnames hrest =>
      (expect_twins h hfinish _ hrest).andThen fun _ _ rest rest' _ _ hbrace hrest =>
      (block_twins h hfinish rest rest' hrest).andThen fun _ _ _ _ _ _ hbody hrest =>
      accept_twins (h.function htoken hnames (h.block hbrace hbody)) hrest _ _
  · -- no expression starts with the tokens
    exact fail_twins rfl (h.alike htoken).pos htokens _ _
termination_by 5 * tokens.length + 2
decreasing_by all_goals omega

theorem alternative_twins (h : Kinship P T I E S B A) (hfinish : finish.Alike P finish')
    (tokens tokens' : List Token) (htokens : List.Forall₂ T tokens tokens') :
    (alternative finish tokens).Twins P T A (alternative finish' tokens') := by
  cases htokens with
  | nil =>
    rw [alternative, alternative]
    exact accept_twins h.hole .nil _ _
  | cons htoken hrest =>
    rw [alternative, alternative, ← (h.alike htoken).kind]
    split
    · exact ((expect_twins h hfinish _ hrest).andThen fun _ _ rest rest' _ _ hbrace hrest =>
        (block_twins h hfinish rest rest' hrest).andThen fun _ _ _ _ _ _ hno hrest =>
        accept_twins (h.other (h.block hbrace hno)) hrest _ _).widen _ _
    · exact accept_twins h.hole (.cons htoken hrest) _ _
termination_by 5 * tokens.length + 1
decreasing_by all_goals (simp only [List.length_cons]; omega)

theorem climb_twins (h : Kinship P T I E S B A) (hfinish : finish.Alike P finish')
    (floor : Precedence) (left left' : Node) (hleft : E left left') (tokens tokens' : List Token)
    (htokens : List.Forall₂ T tokens tokens') :
    (climb finish floor left tokens).Twins P T E (climb finish' floor left' tokens') := by
  cases htokens with
  | nil =>
    rw [climb, climb]
    exact accept_twins hleft .nil _ _
  | @cons token token' rest rest' htoken hrest =>
    rw [climb, climb, ← (h.alike htoken).kind]
    split
    · next hrank =>
      split
      · exact ((args_twins h hfinish rest rest' hrest).andThen
          fun _ _ rest rest' _ _ hargs hrest =>
          climb_twins h hfinish floor _ _ (h.call htoken hleft hargs) rest rest' hrest).widen _ _
      · next hkind =>
        -- the token binds, and is no parenthesis, so that it is an operator
        exact ((nextExpr_twins h hfinish _ rest rest' hrest).andThen
          fun _ _ rest rest' _ _ hright hrest =>
          climb_twins h hfinish floor _ _
            (h.infixOp htoken (Nat.zero_lt_of_lt hrank) hkind hleft hright) rest rest'
            hrest).widen _ _
    · exact accept_twins hleft (.cons htoken hrest) _ _
termination_by 5 * tokens.length + 1
decreasing_by all_goals (simp only [List.length_cons]; omega)

theorem args_twins (h : Kinship P T I E S B A) (hfinish : finish.Alike P finish')
    (tokens tokens' : List Token) (htokens : List.Forall₂ T tokens tokens') :
    (args finish tokens).Twins P T (List.Forall₂ E) (args finish' tokens') := by
  cases htokens with
  | nil =>
    rw [args, args]
    exact fail_twins (by rw [hfinish.kind]) hfinish.pos .nil _ _
  | @cons token token' rest rest' htoken hrest =>
    rw [args, args, ← (h.alike htoken).kind]
    split
    · exact accept_twins .nil hrest _ _
    · exact ((expr_twins h hfinish .lowest token token' htoken rest rest' hrest).andThen
        fun _ _ rest rest' _ _ hvalue hrest =>
        (moreArgs_twins h hfinish rest rest' hrest).andThen fun _ _ _ _ _ _ hvalues hrest =>
        accept_twins (.cons hvalue hvalues) hrest _ _).widen _ _
termination_by 5 * tokens.length
decreasing_by all_goals (simp only [List.length_cons]; omega)

theorem moreArgs_twins (h : Kinship P T I E S B A) (hfinish : finish.Alike P finish')
    (tokens tokens' : List Token) (htokens : List.Forall₂ T tokens tokens') :
    (moreArgs finish tokens).Twins P T (List.Forall₂ E) (moreArgs finish' tokens') := by
  cases htokens with
  | nil =>
    rw [moreArgs, moreArgs]
    exact fail_twins (by rw [hfinish.kind]) hfinish.pos .nil _ _
  | @cons token token' rest rest' htoken hrest =>
    rw [moreArgs, moreArgs, ← (h.alike htoken).kind]
    split
    · exact ((nextExpr_twins h hfinish .lowest rest rest' hrest).andThen
        fun _ _ rest rest' _ _ hvalue hrest =>
        (moreArgs_twins h hfinish rest rest' hrest).andThen fun _ _ _ _ _ _ hvalues hrest =>
        accept_twins (.cons hvalue hvalues) hrest _ _).widen _ _
    · split
      · exact accept_twins .nil hrest _ _
      · exact fail_twins rfl (h.alike htoken).pos (.cons htoken hrest) _ _
termination_by 5 * tokens.length
decreasing_by all_goals (simp only [List.length_cons]; omega)

end

theorem program_twins (h : Kinship P T I E S B A) (hfinish : finish.Alike P finish')
    (tokens tokens' : List Token) (htokens : List.Forall₂ T tokens tokens') :
    (program finish tokens).Twins P T (List.Forall₂ S) (program finish' tokens') := by
  cases htokens with
  | nil =>
    rw [program, program]
    exact accept_twins .nil .nil _ _
  | @cons token token' rest rest' htoken hrest =>
    rw [program, program]
    exact ((stmt_twins h hfinish token token' htoken rest rest' hrest).collect
      fun rest rest' _ _ hrest => program_twins h hfinish rest rest' hrest).widen _ _
termination_by tokens.length
decreasing_by all_goals (simp only [List.length_cons]; omega)

end

end Parse

/-- **Texts with related tokens are read into related programs**, with the same complaints about
related places: `program_twins` for the tokens of two cursors. -/
theorem Cursor.parse_twins {P : Position → Position → Prop} {T : Token → Token → Prop}
    {I : Ident → Ident → Prop} {E S B A : Node → Node → Prop} (h : Parse.Kinship P T I E S B A)
    {cursor twin : Cursor} (hfinish : cursor.finish.endToken.Alike P twin.finish.endToken)
    (htokens : List.Forall₂ T cursor.tokens twin.tokens) :
    List.Forall₂ S cursor.parse.program twin.parse.program ∧
      List.Forall₂ (Diagnostic.Alike P) cursor.parse.diagnostics twin.parse.diagnostics := by
  obtain ⟨hresult, -, hdiagnostics⟩ := Parse.program_twins h hfinish _ _ htokens
  refine ⟨?_, hdiagnostics⟩
  rw [parse, parse]
  dsimp only
  generalize (Parse.program cursor.finish.endToken cursor.tokens).result = result at hresult ⊢
  generalize (Parse.program twin.finish.endToken twin.tokens).result = result' at hresult ⊢
  cases hresult with
  | none => exact .nil
  | some hnodes => exact hnodes

end TreeWalk
