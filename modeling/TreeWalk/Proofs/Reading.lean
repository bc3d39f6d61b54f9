import TreeWalk.Proofs.ParserRules

/-!
# Clean readings

What the parser does on a text it has nothing to complain about.  A *clean* reading gives a value
and reports nothing (`Parse.Reads`).  For each function of the parser one equivalence says when it
reads cleanly, in terms of the clean readings of the functions it calls; nothing else about the
parser's code is needed to compare it with the grammar.

A reading without a diagnostic is clean, because every failure is reported (`Parse.Reported`).

## Main definitions

* `Parse.Reported` — the account that what cannot be read is reported.
* `Parse.Reads` — a clean reading.

## Main results

* `Parse.reported_rules` — the moves of the parser report every failure.
* `Parse.expr_reads`, `Parse.climb_reads_call`, … — the clean readings of each function.
-/

namespace TreeWalk

namespace Parse

variable {α β : Type} {bound : Nat}

/-! ### Every failure is reported -/

/-- What cannot be read is reported: a reading without a value has `diagnostics`. -/
def Reported (_ : List Token) (ok : Bool) (_ : List Token) (diagnostics : List Diagnostic) : Prop :=
  diagnostics = [] → ok = true

/-- The moves of the parser report every failure: `Reported` is kept by all of `Rules`. -/
theorem reported_rules (finish : Token) : Rules finish (.plain Reported) (.plain Reported) where
  still _ _ := rfl
  taken _ h := h
  onward _ h hnone := h (List.append_eq_nil_iff.1 hnone).2
  called _ _ h := h
  spared _ h := h
  missed _ _ h := absurd h (List.cons_ne_nil _ _)
  refused _ _ h := absurd h (List.cons_ne_nil _ _)
  refusedEnd h := absurd h (List.cons_ne_nil _ _)
  tooLarge _ _ _ h := absurd h (List.cons_ne_nil _ _)
  braced _ h := h
  closed _ _ _ := rfl
  unclosed h := absurd h (List.cons_ne_nil _ _)
  row _ _ h hnone := h (List.append_eq_nil_iff.1 hnone).2

/-- A `stmt` without a diagnostic is read, since it is `Reported`. -/
theorem isSome_stmt_result {finish token : Token} {tokens : List Token}
    (h : (stmt finish token tokens).diagnostics = []) :
    (stmt finish token tokens).result.isSome :=
  stmt_meets (reported_rules finish) token tokens h

/-! ### Clean readings -/

/-- A clean reading: `value` was read, `rest` is left, and nothing was reported. -/
def Reads (parse : Parse α bound) (value : α) (rest : List Token) : Prop :=
  parse.result = some value ∧ parse.rest = rest ∧ parse.diagnostics = []

theorem Reads.length_le {parse : Parse α bound} {value : α} {rest : List Token}
    (h : parse.Reads value rest) : rest.length ≤ bound := h.2.1 ▸ parse.length_le

@[simp] theorem accept_reads {value value' : α} {rest rest' : List Token}
    {h : rest.length ≤ bound} :
    (accept value rest h).Reads value' rest' ↔ value = value' ∧ rest = rest' := by
  simp [Reads, accept]

@[simp] theorem fail_reads {complaint : Complaint} {pos : Position} {value : α}
    {rest rest' : List Token} {h : rest.length ≤ bound} :
    ¬ (fail complaint pos rest h : Parse α bound).Reads value rest' := by
  simp [Reads, fail]

@[simp] theorem widen_reads {parse : Parse α bound} {bound' : Nat} {h : bound ≤ bound'}
    {value : α} {rest : List Token} : (parse.widen h).Reads value rest ↔ parse.Reads value rest :=
  Iff.rfl

@[simp] theorem andThen_reads {first : Parse α bound}
    {next : α → (rest : List Token) → rest.length ≤ bound → Parse β rest.length} {value : β}
    {rest : List Token} :
    (first.andThen next).Reads value rest ↔
      ∃ given middle, ∃ h : first.Reads given middle,
        (next given middle h.length_le).Reads value rest := by
  obtain ⟨result, middle, diagnostics, h⟩ := first
  cases result with
  | none => simp [Reads, andThen]
  | some given =>
    constructor
    · rintro ⟨hvalue, hrest, hdiagnostics⟩
      obtain ⟨hfirst, hsecond⟩ := List.append_eq_nil_iff.mp hdiagnostics
      exact ⟨given, middle, ⟨rfl, rfl, hfirst⟩, hvalue, hrest, hsecond⟩
    · -- the middle is determined by the first reading, but only the equation says so
      rintro ⟨given', middle', ⟨hgiven, hmiddle, hfirst⟩, hvalue, hrest, hsecond⟩
      obtain rfl := Option.some.inj hgiven
      obtain rfl : middle = middle' := hmiddle
      exact ⟨hvalue, hrest, List.append_eq_nil_iff.mpr ⟨hfirst, hsecond⟩⟩

/-- `Parse.collect` reads a row cleanly exactly when `first` and then `more` read cleanly, provided
that `first` reports its failures. -/
theorem collect_reads {first : Parse α bound}
    {more : (rest : List Token) → rest.length ≤ bound → Parse (List α) rest.length}
    (hreported : first.diagnostics = [] → first.result.isSome) {values : List α}
    {rest : List Token} :
    (first.collect more).Reads values rest ↔
      ∃ value middle others, ∃ h : first.Reads value middle,
        (more middle h.length_le).Reads others rest ∧ value :: others = values := by
  constructor
  · rintro ⟨hvalues, hrest, hdiagnostics⟩
    obtain ⟨hfirst, hsecond⟩ := List.append_eq_nil_iff.mp hdiagnostics
    -- a statement left out would have been reported
    obtain ⟨value, hresult⟩ := Option.isSome_iff_exists.1 (hreported hfirst)
    obtain ⟨others, hothers, hcons⟩ := Option.map_eq_some_iff.mp hvalues
    refine ⟨value, first.rest, others, ⟨hresult, rfl, hfirst⟩, ⟨hothers, hrest, hsecond⟩, ?_⟩
    rw [← hcons]
    simp [hresult]
  · rintro ⟨value, middle, others, ⟨hresult, hmiddle, hfirst⟩, ⟨hothers, hrest, hsecond⟩, rfl⟩
    obtain ⟨result, middle', diagnostics, h'⟩ := first
    obtain rfl : middle' = middle := hmiddle
    refine ⟨?_, hrest, List.append_eq_nil_iff.mpr ⟨hfirst, hsecond⟩⟩
    simp only at hresult
    simp [collect, hothers, hresult]

/-! ### The clean readings of each function -/

/-- How tightly the next token binds what stands before it; the end of the input does not. -/
def nextRank : List Token → Nat
  | [] => 0
  | token :: _ => token.kind.precedence.rank

@[simp] theorem nextRank_nil : nextRank [] = 0 := rfl

@[simp] theorem nextRank_cons (token : Token) (rest : List Token) :
    nextRank (token :: rest) = token.kind.precedence.rank := rfl

section

variable {finish token : Token} {tokens rest : List Token} {node : Node} {nodes : List Node}
  {floor : Precedence}

@[simp] theorem expect_reads {kind : Kind} :
    (expect finish kind tokens).Reads token rest ↔ tokens = token :: rest ∧ token.kind = kind := by
  cases tokens with
  | nil => simp [expect]
  | cons first others =>
    rw [expect]
    split
    · next hkind =>
      rw [accept_reads, List.cons.injEq]
      exact ⟨fun h => ⟨h, h.1 ▸ hkind⟩, fun h => h.1⟩
    · next hkind =>
      refine iff_of_false fail_reads ?_
      rintro ⟨htokens, htoken⟩
      rw [List.cons.injEq] at htokens
      exact hkind (htokens.1 ▸ htoken)

theorem number_reads :
    (number token tokens).Reads node rest ↔
      ∃ value, Number.nearest? (digitsValue token.lexeme) 1 = some value ∧
        .number token value = node ∧ tokens = rest := by
  rw [number]
  split
  · next value hvalue => simp [hvalue]
  · next hvalue => simp [hvalue]

theorem stmt_reads_let (hkind : token.kind = .letWord) :
    (stmt finish token tokens).Reads node rest ↔
      ∃ name sign more value middle, tokens = name :: sign :: more ∧ name.kind = .ident ∧
        sign.kind = .equal ∧ (nextExpr finish .lowest more).Reads value middle ∧
        .letStmt token ⟨name, name.lexeme⟩ value = node ∧ dropSemicolon middle = rest := by
  rw [stmt.eq_def, hkind]
  simp only [andThen_reads, expect_reads, accept_reads, exists_prop]
  constructor
  · rintro ⟨name, _, ⟨htokens, hname⟩, sign, more, ⟨rfl, hsign⟩, value, middle, hvalue, h⟩
    exact ⟨name, sign, more, value, middle, htokens, hname, hsign, hvalue, h⟩
  · rintro ⟨name, sign, more, value, middle, rfl, hname, hsign, hvalue, h⟩
    exact ⟨name, _, ⟨rfl, hname⟩, sign, more, ⟨rfl, hsign⟩, value, middle, hvalue, h⟩

theorem stmt_reads_return (hkind : token.kind = .returnWord) :
    (stmt finish token tokens).Reads node rest ↔
      ∃ value middle, (nextExpr finish .lowest tokens).Reads value middle ∧
        .returnStmt token value = node ∧ dropSemicolon middle = rest := by
  rw [stmt.eq_def, hkind]
  simp only [andThen_reads, accept_reads, exists_prop]

theorem stmt_reads_expr (hlet : token.kind ≠ .letWord) (hreturn : token.kind ≠ .returnWord) :
    (stmt finish token tokens).Reads node rest ↔
      ∃ value middle, (expr finish .lowest token tokens).Reads value middle ∧
        .exprStmt token value = node ∧ dropSemicolon middle = rest := by
  rw [stmt.eq_def]
  split
  · next hkind => exact absurd hkind hlet
  · next hkind => exact absurd hkind hreturn
  · simp only [andThen_reads, accept_reads, exists_prop]

@[simp] theorem block_reads_nil : ¬ (block finish []).Reads nodes rest := by
  rw [block]
  exact fail_reads

theorem block_reads_close (hkind : token.kind = .closeBrace) :
    (block finish (token :: tokens)).Reads nodes rest ↔ [] = nodes ∧ tokens = rest := by
  rw [block, if_pos hkind, accept_reads]

theorem block_reads_next (hkind : token.kind ≠ .closeBrace) :
    (block finish (token :: tokens)).Reads nodes rest ↔
      ∃ node middle others, (stmt finish token tokens).Reads node middle ∧
        (block finish middle).Reads others rest ∧ node :: others = nodes := by
  rw [block, if_neg hkind, widen_reads, collect_reads isSome_stmt_result]
  simp only [exists_prop]

@[simp] theorem nextExpr_reads_nil : ¬ (nextExpr finish floor []).Reads node rest := by
  rw [nextExpr]
  exact fail_reads

@[simp] theorem nextExpr_reads_cons :
    (nextExpr finish floor (token :: tokens)).Reads node rest ↔
      (expr finish floor token tokens).Reads node rest := by
  rw [nextExpr, widen_reads]

theorem expr_reads :
    (expr finish floor token tokens).Reads node rest ↔
      ∃ left middle, (operand finish token tokens).Reads left middle ∧
        (climb finish floor left middle).Reads node rest := by
  rw [expr]
  simp only [andThen_reads, exists_prop]

theorem operand_reads_ident (hkind : token.kind = .ident) :
    (operand finish token tokens).Reads node rest ↔
      .ident ⟨token, token.lexeme⟩ = node ∧ tokens = rest := by
  rw [operand.eq_def, hkind]
  exact accept_reads

theorem operand_reads_int (hkind : token.kind = .int) :
    (operand finish token tokens).Reads node rest ↔
      ∃ value, Number.nearest? (digitsValue token.lexeme) 1 = some value ∧
        .number token value = node ∧ tokens = rest := by
  rw [operand.eq_def, hkind]
  exact number_reads

theorem operand_reads_string (hkind : token.kind = .string) :
    (operand finish token tokens).Reads node rest ↔
      .text token token.lexeme = node ∧ tokens = rest := by
  rw [operand.eq_def, hkind]
  exact accept_reads

theorem operand_reads_true (hkind : token.kind = .trueWord) :
    (operand finish token tokens).Reads node rest ↔ .boolean token true = node ∧ tokens = rest := by
  rw [operand.eq_def, hkind]
  exact accept_reads

theorem operand_reads_false (hkind : token.kind = .falseWord) :
    (operand finish token tokens).Reads node rest ↔
      .boolean token false = node ∧ tokens = rest := by
  rw [operand.eq_def, hkind]
  exact accept_reads

theorem operand_reads_unary (hkind : token.kind = .bang ∨ token.kind = .minus) :
    (operand finish token tokens).Reads node rest ↔
      ∃ right, (nextExpr finish .unary tokens).Reads right rest ∧
        .prefixOp token token.lexeme right = node := by
  have hreads : (operand finish token tokens).Reads node rest ↔
      ∃ right middle, (nextExpr finish .unary tokens).Reads right middle ∧
        .prefixOp token token.lexeme right = node ∧ middle = rest := by
    rw [operand.eq_def]
    rcases hkind with hkind | hkind <;>
      simp only [hkind, andThen_reads, accept_reads, exists_prop]
  rw [hreads]
  constructor
  · rintro ⟨right, _, hright, hnode, rfl⟩
    exact ⟨right, hright, hnode⟩
  · rintro ⟨right, hright, hnode⟩
    exact ⟨right, rest, hright, hnode, rfl⟩

theorem operand_reads_group (hkind : token.kind = .openParen) :
    (operand finish token tokens).Reads node rest ↔
      ∃ closing, (nextExpr finish .lowest tokens).Reads node (closing :: rest) ∧
        closing.kind = .closeParen := by
  rw [operand.eq_def, hkind]
  simp only [andThen_reads, expect_reads, accept_reads, exists_prop]
  constructor
  · rintro ⟨_, _, hinner, closing, _, ⟨rfl, hclosing⟩, rfl, rfl⟩
    exact ⟨closing, hinner, hclosing⟩
  · rintro ⟨closing, hinner, hclosing⟩
    exact ⟨node, _, hinner, closing, rest, ⟨rfl, hclosing⟩, rfl, rfl⟩

theorem operand_reads_if (hkind : token.kind = .ifWord) :
    (operand finish token tokens).Reads node rest ↔
      ∃ opening more cond closing brace body yes middle no,
        tokens = opening :: more ∧ opening.kind = .openParen ∧
        (nextExpr finish .lowest more).Reads cond (closing :: brace :: body) ∧
        closing.kind = .closeParen ∧ brace.kind = .openBrace ∧
        (block finish body).Reads yes middle ∧ (alternative finish middle).Reads no rest ∧
        .ifElse token cond (.block brace yes) no = node := by
  rw [operand.eq_def, hkind]
  simp only [andThen_reads, expect_reads, accept_reads, exists_prop]
  constructor
  · rintro ⟨opening, more, ⟨htokens, hopening⟩, cond, _, hcond, closing, _, ⟨rfl, hclosing⟩, brace,
      body, ⟨rfl, hbrace⟩, yes, middle, hyes, no, _, hno, hnode, rfl⟩
    exact ⟨opening, more, cond, closing, brace, body, yes, middle, no, htokens, hopening, hcond,
      hclosing, hbrace, hyes, hno, hnode⟩
  · rintro ⟨opening, more, cond, closing, brace, body, yes, middle, no, htokens, hopening, hcond,
      hclosing, hbrace, hyes, hno, hnode⟩
    exact ⟨opening, more, ⟨htokens, hopening⟩, cond, _, hcond, closing, _, ⟨rfl, hclosing⟩, brace,
      body, ⟨rfl, hbrace⟩, yes, middle, hyes, no, rest, hno, hnode, rfl⟩

theorem operand_reads_fn (hkind : token.kind = .fnWord) :
    (operand finish token tokens).Reads node rest ↔
      ∃ opening more names brace body stmts,
        tokens = opening :: more ∧ opening.kind = .openParen ∧
        (params finish more).Reads names (brace :: body) ∧ brace.kind = .openBrace ∧
        (block finish body).Reads stmts rest ∧
        .function token names (.block brace stmts) = node := by
  rw [operand.eq_def, hkind]
  simp only [andThen_reads, expect_reads, accept_reads, exists_prop]
  constructor
  · rintro ⟨opening, more, ⟨htokens, hopening⟩, names, _, hnames, brace, body, ⟨rfl, hbrace⟩, stmts,
      _, hstmts, hnode, rfl⟩
    exact ⟨opening, more, names, brace, body, stmts, htokens, hopening, hnames, hbrace, hstmts,
      hnode⟩
  · rintro ⟨opening, more, names, brace, body, stmts, htokens, hopening, hnames, hbrace, hstmts,
      hnode⟩
    exact ⟨opening, more, ⟨htokens, hopening⟩, names, _, hnames, brace, body, ⟨rfl, hbrace⟩, stmts,
      rest, hstmts, hnode, rfl⟩

/-- A token with which `operand` reads something is of one of these kinds. -/
theorem kind_of_operand_reads (h : (operand finish token tokens).Reads node rest) :
    token.kind ∈ [.bang, .minus, .ident, .int, .string, .trueWord, .falseWord, .openParen, .ifWord,
      .fnWord] := by
  rw [operand.eq_def] at h
  split at h
  case h_11 => exact absurd h fail_reads
  all_goals next hkind => simp [hkind]

theorem alternative_reads_else (hkind : token.kind = .elseWord) :
    (alternative finish (token :: tokens)).Reads node rest ↔
      ∃ brace body stmts, tokens = brace :: body ∧ brace.kind = .openBrace ∧
        (block finish body).Reads stmts rest ∧ .block brace stmts = node := by
  rw [alternative, if_pos hkind]
  simp only [widen_reads, andThen_reads, expect_reads, accept_reads, exists_prop]
  constructor
  · rintro ⟨brace, body, ⟨htokens, hbrace⟩, stmts, _, hstmts, hnode, rfl⟩
    exact ⟨brace, body, stmts, htokens, hbrace, hstmts, hnode⟩
  · rintro ⟨brace, body, stmts, htokens, hbrace, hstmts, hnode⟩
    exact ⟨brace, body, ⟨htokens, hbrace⟩, stmts, rest, hstmts, hnode, rfl⟩

theorem alternative_reads_none (hnext : ∀ token ∈ tokens.head?, token.kind ≠ .elseWord) :
    (alternative finish tokens).Reads node rest ↔ .hole = node ∧ tokens = rest := by
  cases tokens with
  | nil => rw [alternative, accept_reads]
  | cons token tokens => rw [alternative, if_neg (hnext token rfl), accept_reads]

theorem climb_reads_stop {left : Node} (hrank : nextRank tokens ≤ floor.rank) :
    (climb finish floor left tokens).Reads node rest ↔ left = node ∧ tokens = rest := by
  cases tokens with
  | nil => rw [climb, accept_reads]
  | cons token tokens =>
    rw [nextRank_cons] at hrank
    rw [climb, if_neg (Nat.not_lt.mpr hrank), accept_reads]

theorem climb_reads_call {left : Node} (hkind : token.kind = .openParen)
    (hrank : floor.rank < token.kind.precedence.rank) :
    (climb finish floor left (token :: tokens)).Reads node rest ↔
      ∃ values middle, (args finish tokens).Reads values middle ∧
        (climb finish floor (.call token left values) middle).Reads node rest := by
  rw [climb, if_pos hrank, if_pos hkind]
  simp only [widen_reads, andThen_reads, exists_prop]

theorem climb_reads_operator {left : Node} (hkind : token.kind ≠ .openParen)
    (hrank : floor.rank < token.kind.precedence.rank) :
    (climb finish floor left (token :: tokens)).Reads node rest ↔
      ∃ right middle, (nextExpr finish token.kind.precedence tokens).Reads right middle ∧
        (climb finish floor (.infixOp token token.lexeme left right) middle).Reads node rest := by
  rw [climb, if_pos hrank, if_neg hkind]
  simp only [widen_reads, andThen_reads, exists_prop]

@[simp] theorem args_reads_nil : ¬ (args finish []).Reads nodes rest := by
  rw [args]
  exact fail_reads

theorem args_reads_close (hkind : token.kind = .closeParen) :
    (args finish (token :: tokens)).Reads nodes rest ↔ [] = nodes ∧ tokens = rest := by
  rw [args, if_pos hkind, accept_reads]

theorem args_reads_next (hkind : token.kind ≠ .closeParen) :
    (args finish (token :: tokens)).Reads nodes rest ↔
      ∃ value middle values, (expr finish .lowest token tokens).Reads value middle ∧
        (moreArgs finish middle).Reads values rest ∧ value :: values = nodes := by
  rw [args, if_neg hkind]
  simp only [widen_reads, andThen_reads, accept_reads, exists_prop]
  constructor
  · rintro ⟨value, middle, hvalue, values, _, hvalues, hnodes, rfl⟩
    exact ⟨value, middle, values, hvalue, hvalues, hnodes⟩
  · rintro ⟨value, middle, values, hvalue, hvalues, hnodes⟩
    exact ⟨value, middle, hvalue, values, rest, hvalues, hnodes, rfl⟩

@[simp] theorem moreArgs_reads_nil : ¬ (moreArgs finish []).Reads nodes rest := by
  rw [moreArgs]
  exact fail_reads

theorem moreArgs_reads_comma (hkind : token.kind = .comma) :
    (moreArgs finish (token :: tokens)).Reads nodes rest ↔
      ∃ value middle values, (nextExpr finish .lowest tokens).Reads value middle ∧
        (moreArgs finish middle).Reads values rest ∧ value :: values = nodes := by
  rw [moreArgs, if_pos hkind]
  simp only [widen_reads, andThen_reads, accept_reads, exists_prop]
  constructor
  · rintro ⟨value, middle, hvalue, values, _, hvalues, hnodes, rfl⟩
    exact ⟨value, middle, values, hvalue, hvalues, hnodes⟩
  · rintro ⟨value, middle, values, hvalue, hvalues, hnodes⟩
    exact ⟨value, middle, hvalue, values, rest, hvalues, hnodes, rfl⟩

theorem moreArgs_reads_other (hkind : token.kind ≠ .comma) :
    (moreArgs finish (token :: tokens)).Reads nodes rest ↔
      token.kind = .closeParen ∧ [] = nodes ∧ tokens = rest := by
  rw [moreArgs, if_neg hkind]
  split
  · next hclose => rw [accept_reads]; exact ⟨fun h => ⟨hclose, h⟩, fun h => h.2⟩
  · next hclose => exact iff_of_false fail_reads fun h => hclose h.1

theorem program_reads_nil {nodes : Program} :
    (program finish []).Reads nodes rest ↔ [] = nodes ∧ [] = rest := by
  rw [program, accept_reads]

theorem program_reads_cons {nodes : Program} :
    (program finish (token :: tokens)).Reads nodes rest ↔
      ∃ node middle others, (stmt finish token tokens).Reads node middle ∧
        (program finish middle).Reads others rest ∧ node :: others = nodes := by
  rw [program, widen_reads, collect_reads isSome_stmt_result]
  simp only [exists_prop]

end

/-- `program` always comes to a result: what cannot be read is left out. -/
theorem exists_program_result (finish : Token) (tokens : List Token) :
    ∃ nodes, (program finish tokens).result = some nodes := by
  fun_induction program finish tokens with
  | case1 => exact ⟨[], rfl⟩
  | case2 token rest ih =>
    obtain ⟨nodes, hnodes⟩ := ih _ (stmt finish token rest).length_le
    exact ⟨_, congrArg (Option.map _) hnodes⟩

/-- `program` never stops before the end, and leaves nothing. -/
theorem program_rest (finish : Token) (tokens : List Token) :
    (program finish tokens).rest = [] := by
  fun_induction program finish tokens with
  | case1 => rfl
  | case2 token rest ih => exact ih _ (stmt finish token rest).length_le

end Parse
end TreeWalk
