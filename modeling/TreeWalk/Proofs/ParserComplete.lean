import TreeWalk.Proofs.ParserSound
import TreeWalk.Proofs.Unambiguous

/-!
# The parser accepts exactly the grammar

The parser refuses no text that has a derivation, separated or not.  Where a derivation starts a
new statement with `(` or `-` and no semicolon in front, the parser goes on with the old one: it
takes `(` for a call and `-` for a difference.  So it does not follow the derivation, and the proof
cannot either.  What it shows is that behind an operand the parser always gets on: it meets
operators with their operands and calls with their arguments, up to a token that ends the
expression (`Tail`).

Together with `Parse.program_sound` and `Grammar.Phrase.eq_of_tokens_eq` this makes the tree that
the parser builds the tree of the only separated derivation.

## Main definitions

* `Tail` — what the parser finds behind an operand, up to the end of the expression.
* `Runs` — statements that are read cleanly one after the other.
* `Taken` — the parser gets over given tokens wherever a symbol is due.

## Main results

* `Tail.exists_climb` — the climb gets over any part of a tail.
* `taken_tokens` — **the parser gets over what any derivation spells.**
* `Cursor.parse_clean_iff_exists_phrase` — **a program is read without a complaint exactly when it
  has a derivation, and the tree is that of the only separated one.**
-/

namespace TreeWalk

open Grammar

namespace Parse

variable {finish : Token}

/-! ### Behind an operand -/

/-- What the parser finds behind an operand: operators with an operand each and calls, up to `rest`,
which ends the expression. -/
inductive Tail (finish : Token) : List Token → List Token → Prop
  /-- The end of the expression. -/
  | stop {rest : List Token} (h : Stops 1 rest) : Tail finish rest rest
  /-- An operator and its right operand. -/
  | operator {token first : Token} {tokens middle rest : List Token} {right : Node}
      (hkind : token.kind ≠ .openParen) (hrank : 0 < token.kind.precedence.rank)
      (hright : (operand finish first tokens).Reads right middle)
      (more : Tail finish middle rest) : Tail finish (token :: first :: tokens) rest
  /-- A call. -/
  | call {token : Token} {tokens middle rest : List Token} {values : List Node}
      (hkind : token.kind = .openParen) (hargs : (args finish tokens).Reads values middle)
      (more : Tail finish middle rest) : Tail finish (token :: tokens) rest

theorem nextRank_eq_zero_of_stops {tokens : List Token} (h : Stops 1 tokens) :
    nextRank tokens = 0 := by
  cases tokens with
  | nil => rfl
  | cons token rest => exact Nat.lt_one_iff.mp h.1

namespace Tail

variable {tokens rest : List Token}

/-- A `Tail` never starts with `else`. -/
theorem kind_ne_else (h : Tail finish tokens rest) :
    ∀ token ∈ tokens.head?, token.kind ≠ .elseWord := by
  intro token htoken helse
  cases h with
  | stop hstops =>
    cases tokens with
    | nil => simp at htoken
    | cons first others =>
      rw [List.head?_cons, Option.mem_some_iff] at htoken
      exact hstops.2 (htoken ▸ helse)
  | operator _ hrank =>
    rw [List.head?_cons, Option.mem_some_iff] at htoken
    rw [htoken, helse] at hrank
    exact absurd hrank (by decide)
  | call hkind =>
    rw [List.head?_cons, Option.mem_some_iff] at htoken
    rw [htoken, helse] at hkind
    exact absurd hkind (by decide)

/-- A `Tail` whose next token does not bind is at its end. -/
theorem eq_of_nextRank (h : Tail finish tokens rest) (hrank : nextRank tokens ≤ 0) :
    tokens = rest := by
  cases h with
  | stop => rfl
  | operator _ hpos => exact absurd hpos (Nat.not_lt.mpr hrank)
  | call hkind =>
    rw [nextRank_cons, hkind] at hrank
    exact absurd hrank (by decide)

/-- **The climb gets over any part of a tail.**  It stops where the next token binds no more tightly
than its `floor`, and what it leaves is a `Tail` again. -/
theorem exists_climb (h : Tail finish tokens rest) (floor : Precedence) (left : Node) :
    ∃ node middle, (climb finish floor left tokens).Reads node middle ∧
      nextRank middle ≤ floor.rank ∧ Tail finish middle rest := by
  -- the right operand of an operator is climbed first, and what that leaves is no part of `h`;
  -- so the induction is on the number of tokens and not on the tail
  obtain ⟨length, hlength⟩ : ∃ length, tokens.length = length := ⟨_, rfl⟩
  induction length using Nat.strongRecOn generalizing tokens floor left with
  | _ length ih =>
    by_cases hstop : nextRank tokens ≤ floor.rank
    · exact ⟨left, tokens, (climb_reads_stop hstop).mpr ⟨rfl, rfl⟩, hstop, h⟩
    cases h with
    | stop hstops =>
      rw [nextRank_eq_zero_of_stops hstops] at hstop
      exact absurd (Nat.zero_le _) hstop
    | @operator token first others middle _ right hkind hrank hright more =>
      rw [nextRank_cons, Nat.not_le] at hstop
      rw [List.length_cons, List.length_cons] at hlength
      have hmiddle : middle.length ≤ others.length := hright.length_le
      obtain ⟨operand, middle', hoperand, -, more'⟩ :=
        ih middle.length (by omega) more token.kind.precedence right rfl
      have hmiddle' : middle'.length ≤ middle.length := hoperand.length_le
      obtain ⟨node, last, hnode, hlast, more''⟩ :=
        ih middle'.length (by omega) more' floor (.infixOp token token.lexeme left operand) rfl
      refine ⟨node, last, (climb_reads_operator hkind hstop).mpr ⟨operand, middle', ?_, hnode⟩,
        hlast, more''⟩
      exact nextExpr_reads_cons.mpr (expr_reads.mpr ⟨right, middle, hright, hoperand⟩)
    | @call token others middle _ values hkind hargs more =>
      rw [nextRank_cons, Nat.not_le] at hstop
      rw [List.length_cons] at hlength
      have hmiddle : middle.length ≤ others.length := hargs.length_le
      obtain ⟨node, last, hnode, hlast, more'⟩ :=
        ih middle.length (by omega) more floor (.call token left values) rfl
      exact ⟨node, last, (climb_reads_call hkind hstop).mpr ⟨values, middle, hargs, hnode⟩, hlast,
        more'⟩

end Tail

/-- An operand and a `Tail`: an expression that ends before `rest`. -/
def Begins (finish : Token) (tokens rest : List Token) : Prop :=
  ∃ first others left middle, tokens = first :: others ∧
    (operand finish first others).Reads left middle ∧ Tail finish middle rest

namespace Begins

variable {tokens rest : List Token}

/-- Where an expression `Begins`, `nextExpr` reads up to a `Tail`, whatever the `floor`. -/
theorem exists_nextExpr (h : Begins finish tokens rest) (floor : Precedence) :
    ∃ node middle, (nextExpr finish floor tokens).Reads node middle ∧
      nextRank middle ≤ floor.rank ∧ Tail finish middle rest := by
  obtain ⟨first, others, left, middle, rfl, hleft, htail⟩ := h
  obtain ⟨node, last, hnode, hrank, hlast⟩ := htail.exists_climb floor left
  exact ⟨node, last, nextExpr_reads_cons.mpr (expr_reads.mpr ⟨left, middle, hleft, hnode⟩), hrank,
    hlast⟩

/-- Over the lowest floor the whole expression is read, up to `rest`. -/
theorem exists_node (h : Begins finish tokens rest) :
    ∃ node, (nextExpr finish .lowest tokens).Reads node rest := by
  obtain ⟨node, middle, hnode, hrank, htail⟩ := h.exists_nextExpr .lowest
  exact ⟨node, htail.eq_of_nextRank hrank ▸ hnode⟩

end Begins

/-! ### Statements one after the other -/

/-- Statements are read cleanly by `stmt` one after the other, up to `limit`. -/
inductive Runs (finish : Token) (limit : List Token) : List Token → Prop
  /-- No more statements. -/
  | done : Runs finish limit limit
  /-- A statement and more. -/
  | next {token : Token} {tokens middle : List Token} {node : Node}
      (hnode : (stmt finish token tokens).Reads node middle) (more : Runs finish limit middle) :
      Runs finish limit (token :: tokens)

/-- Behind an operand stands a `Tail`, behind which statements are read up to `limit`. -/
def RunsOn (finish : Token) (limit tokens : List Token) : Prop :=
  ∃ rest, Tail finish tokens rest ∧ Runs finish limit (dropSemicolon rest)

/-- What `stmt` reads starts with no closing brace. -/
theorem kind_ne_of_stmt_reads {token : Token} {tokens rest : List Token} {node : Node}
    (h : (stmt finish token tokens).Reads node rest) : token.kind ≠ .closeBrace := by
  intro hkind
  obtain ⟨value, middle, hvalue, -, -⟩ :=
    (stmt_reads_expr (hkind ▸ by decide) (hkind ▸ by decide)).mp h
  obtain ⟨left, _, hleft, -⟩ := expr_reads.mp hvalue
  have hstart := kind_of_operand_reads hleft
  rw [hkind] at hstart
  exact absurd hstart (by decide)

namespace Runs

variable {tokens : List Token}

/-- Statements with `Runs` up to a closing brace are read as a `block`. -/
theorem exists_block {closing : Token} {more : List Token} (hkind : closing.kind = .closeBrace)
    (h : Runs finish (closing :: more) tokens) :
    ∃ nodes, (block finish tokens).Reads nodes more := by
  induction h with
  | done => exact ⟨[], (block_reads_close hkind).mpr ⟨rfl, rfl⟩⟩
  | @next token tokens middle node hnode _ ih =>
    obtain ⟨nodes, hnodes⟩ := ih
    exact ⟨node :: nodes, (block_reads_next (kind_ne_of_stmt_reads hnode)).mpr
      ⟨node, middle, nodes, hnode, hnodes, rfl⟩⟩

/-- Statements with `Runs` up to the end of the input are read as a `program`. -/
theorem exists_program (h : Runs finish [] tokens) :
    ∃ nodes, (program finish tokens).Reads nodes [] := by
  induction h with
  | done => exact ⟨[], program_reads_nil.mpr ⟨rfl, rfl⟩⟩
  | @next token tokens middle node hnode _ ih =>
    obtain ⟨nodes, hnodes⟩ := ih
    exact ⟨node :: nodes, program_reads_cons.mpr ⟨node, middle, nodes, hnode, hnodes, rfl⟩⟩

end Runs

/-! ### Derivations -/

/-- The next token, if there is one, may continue an expression although it could start one: it is
`(` or `-`. -/
def Joins (tokens : List Token) : Prop :=
  ∃ token ∈ tokens.head?, token.kind = .openParen ∨ token.kind = .minus

/-- The parser gets over `tokens` wherever the symbol is due.  Where the tokens of an expression or
a statement may continue the expression in front of them (`Joins`), it gets over them in that place,
too. -/
def Taken (finish : Token) : Symbol → List Token → Prop
  | .stmts, tokens => ∀ limit, (∀ token ∈ limit.head?, token.kind = .closeBrace) →
    Runs finish limit (tokens ++ limit) ∧ RunsOn finish limit (tokens ++ limit)
  | .stmt, tokens => ∀ limit more, Runs finish limit more → RunsOn finish limit more →
    Runs finish limit (tokens ++ more) ∧
      (Joins (tokens ++ more) → RunsOn finish limit (tokens ++ more))
  | .clause, tokens => ∀ more rest, Tail finish more rest →
    (∃ token others node, tokens ++ more = token :: others ∧
      (stmt finish token others).Reads node (dropSemicolon rest)) ∧
    (Joins (tokens ++ more) → Tail finish (tokens ++ more) rest)
  | .block, tokens => ∀ more, ∃ opening body nodes, tokens ++ more = opening :: body ∧
    opening.kind = .openBrace ∧ (block finish body).Reads nodes more
  | .alternative, tokens => ∀ more rest, Tail finish more rest →
    ∃ node, (alternative finish (tokens ++ more)).Reads node more
  | .expr _, tokens | .primary, tokens | .atom, tokens => ∀ more rest, Tail finish more rest →
    Begins finish (tokens ++ more) rest ∧
      (Joins (tokens ++ more) → Tail finish (tokens ++ more) rest)
  | .chain _, tokens | .calls, tokens => ∀ more rest, Tail finish more rest →
    Tail finish (tokens ++ more) rest
  | .args, tokens => ∀ (closing : Terminal [.closeParen]) (more : List Token),
    ∃ nodes, (args finish (tokens ++ closing.1 :: more)).Reads nodes more
  | .moreArgs, tokens => ∀ (closing : Terminal [.closeParen]) (more : List Token),
    ∃ nodes, (moreArgs finish (tokens ++ closing.1 :: more)).Reads nodes more

/-- A token of another kind than `(` and `-` joins nothing. -/
theorem not_joins {kind : Kind} (token : Terminal [kind]) {rest : List Token}
    (h : kind ∉ [.openParen, .minus]) : ¬ Joins (token.1 :: rest) := by
  rintro ⟨first, hfirst, hkind⟩
  rw [List.head?_cons, Option.mem_some_iff] at hfirst
  rw [← hfirst, token.kind_eq] at hkind
  exact h (by simpa using hkind)

/-- A `Tail` that is at its end at once, since its next token does not bind. -/
theorem tail_of_terminal {kind : Kind} (token : Terminal [kind]) (rest : List Token)
    (h : kind.precedence.rank < 1 ∧ kind ≠ .elseWord) :
    Tail finish (token.1 :: rest) (token.1 :: rest) :=
  .stop (by rw [stops_cons, token.kind_eq]; exact h)

/-- Where a statement starts with a token that does not join the expression in front, that
expression has ended. -/
theorem tail_of_not_joins {tokens : List Token} {token : Token} {others : List Token}
    (htokens : tokens = token :: others) (hstart : token.kind ∈ stmtStarts) (h : ¬ Joins tokens) :
    Tail finish tokens tokens ∧ dropSemicolon tokens = tokens := by
  have hkind : ¬ (token.kind = .openParen ∨ token.kind = .minus) := fun hkind =>
    h ⟨token, by simp [htokens], hkind⟩
  simp only [stmtStarts, exprStarts, operandStarts, List.mem_cons, List.not_mem_nil, or_false]
    at hstart
  subst htokens
  refine ⟨.stop ?_, ?_⟩
  · rcases hstart with hk | hk | hk | hk | hk | hk | hk | hk | hk | hk | hk | hk <;>
      simp [hk, Kind.precedence, Precedence.rank] at hkind ⊢
  · have hsemicolon : token.kind ≠ .semicolon := by
      intro hk
      rw [hk] at hstart
      simp at hstart
    rw [dropSemicolon, if_neg hsemicolon]

/-- Statements in a row are `Taken` if the first one and the others are. -/
theorem taken_next {head : Phrase .stmt} {tail : Phrase .stmts}
    (hhead : Taken finish .stmt head.tokens) (htail : Taken finish .stmts tail.tokens) :
    Taken finish .stmts (head.tokens ++ tail.tokens) := by
  intro limit hlimit
  obtain ⟨hruns, hrunsOn⟩ := htail limit hlimit
  obtain ⟨hstart, hjoin⟩ := hhead limit _ hruns hrunsOn
  rw [List.append_assoc]
  refine ⟨hstart, ?_⟩
  by_cases hjoins : Joins (head.tokens ++ (tail.tokens ++ limit))
  · exact hjoin hjoins
  · -- the statement in front ends here, and this one is read for itself
    obtain ⟨first, others, htokens, hfirst⟩ := head.exists_first (by decide)
    have htokens' : head.tokens ++ (tail.tokens ++ limit)
        = first :: (others ++ (tail.tokens ++ limit)) := by rw [htokens, List.cons_append]
    obtain ⟨hend, hdrop⟩ := tail_of_not_joins htokens' hfirst hjoins
    exact ⟨_, hend, hdrop.symm ▸ hstart⟩

/-- A `clause` with its semicolon, if it has one, is `Taken` as a statement. -/
theorem taken_stmt {clause : List Token} (stop : Option (Terminal [.semicolon]))
    (hclause : Taken finish .clause clause) :
    Taken finish .stmt (clause ++ (stop.map (·.1)).toList) := by
  intro limit more hruns hrunsOn
  cases stop with
  | none =>
    -- without a semicolon the clause runs on as far as what follows lets it
    obtain ⟨rest, htail, hrest⟩ := hrunsOn
    obtain ⟨⟨token, others, node, htokens, hnode⟩, hjoin⟩ := hclause more rest htail
    simp only [Option.map_none, Option.toList_none, List.append_nil]
    exact ⟨htokens ▸ .next hnode hrest, fun hjoins => ⟨rest, hjoin hjoins, hrest⟩⟩
  | some semicolon =>
    have htail : Tail finish (semicolon.1 :: more) (semicolon.1 :: more) :=
      tail_of_terminal semicolon more (by decide)
    have hdrop : dropSemicolon (semicolon.1 :: more) = more := by
      rw [dropSemicolon, if_pos semicolon.kind_eq]
    obtain ⟨⟨token, others, node, htokens, hnode⟩, hjoin⟩ := hclause _ _ htail
    simp only [Option.map_some, Option.toList_some, List.append_assoc, List.cons_append,
      List.nil_append]
    rw [hdrop] at hnode
    exact ⟨htokens ▸ .next hnode hruns, fun hjoins => ⟨_, hjoin hjoins, hdrop.symm ▸ hruns⟩⟩

/-- An expression is `Taken` as a clause. -/
theorem taken_exprClause {value : Phrase (.expr .equals)}
    (hvalue : Taken finish (.expr .equals) value.tokens) :
    Taken finish .clause value.tokens := by
  intro more rest htail
  obtain ⟨hbegins, hjoin⟩ := hvalue more rest htail
  refine ⟨?_, hjoin⟩
  obtain ⟨first, others, htokens, hfirst⟩ :=
    value.exists_first (by simp [Symbol.starts, exprStarts])
  obtain ⟨node, hnode⟩ := hbegins.exists_node
  rw [htokens, List.cons_append] at hnode ⊢
  refine ⟨first, others ++ more, .exprStmt first node, rfl, ?_⟩
  refine (stmt_reads_expr ?_ ?_).mpr ⟨node, rest, nextExpr_reads_cons.mp hnode, rfl, rfl⟩
  all_goals
    intro hkind
    rw [hkind] at hfirst
    exact absurd hfirst (by decide)

/-- No more arguments: `Taken` without a token. -/
theorem taken_lastArg : Taken finish .moreArgs Phrase.lastArg.tokens := by
  intro closing more
  have hkind : closing.1.kind ≠ .comma := by rw [closing.kind_eq]; decide
  exact ⟨[], (moreArgs_reads_other hkind).mpr ⟨closing.kind_eq, rfl, rfl⟩⟩

/-- An argument `value` is read by `expr` up to what stands behind it. -/
theorem exists_arg {value : List Token} (hvalue : Taken finish (.expr .equals) value)
    (others : Phrase .moreArgs) (closing : Terminal [.closeParen]) (more : List Token) :
    ∃ token tokens node, value ++ (others.tokens ++ closing.1 :: more) = token :: tokens ∧
      token.kind ≠ .closeParen ∧ (expr finish .lowest token tokens).Reads node
        (others.tokens ++ closing.1 :: more) := by
  have htail : Tail finish (others.tokens ++ closing.1 :: more) _ :=
    .stop (Phrase.stops_moreArgs others (closing.kind_of_mem_head? more))
  have hbegins := (hvalue _ _ htail).1
  obtain ⟨node, hnode⟩ := hbegins.exists_node
  obtain ⟨token, tokens, left, middle, htokens, hleft, -⟩ := hbegins
  rw [htokens, nextExpr_reads_cons] at hnode
  refine ⟨token, tokens, node, htokens, fun hkind => ?_, hnode⟩
  have hstart := kind_of_operand_reads hleft
  rw [hkind] at hstart
  exact absurd hstart (by decide)

theorem taken_someArgs {first : List Token} {others : Phrase .moreArgs}
    (hfirst : Taken finish (.expr .equals) first)
    (hothers : Taken finish .moreArgs others.tokens) :
    Taken finish .args (first ++ others.tokens) := by
  intro closing more
  obtain ⟨token, tokens, node, htokens, hkind, hnode⟩ := exists_arg hfirst others closing more
  obtain ⟨nodes, hnodes⟩ := hothers closing more
  rw [List.append_assoc, htokens]
  exact ⟨node :: nodes, (args_reads_next hkind).mpr ⟨node, _, nodes, hnode, hnodes, rfl⟩⟩

theorem taken_nextArg (comma : Terminal [.comma]) {value : List Token} {others : Phrase .moreArgs}
    (hvalue : Taken finish (.expr .equals) value)
    (hothers : Taken finish .moreArgs others.tokens) :
    Taken finish .moreArgs (comma.1 :: (value ++ others.tokens)) := by
  intro closing more
  obtain ⟨token, tokens, node, htokens, -, hnode⟩ := exists_arg hvalue others closing more
  obtain ⟨nodes, hnodes⟩ := hothers closing more
  rw [List.cons_append, List.append_assoc, htokens]
  exact ⟨node :: nodes, (moreArgs_reads_comma comma.kind_eq).mpr
    ⟨node, _, nodes, nextExpr_reads_cons.mpr hnode, hnodes, rfl⟩⟩

/-- An expression in parentheses is `Taken`; behind another expression, as the argument of a
call. -/
theorem taken_group (opening : Terminal [.openParen]) (closing : Terminal [.closeParen])
    {inner : List Token} (hinner : Taken finish (.expr .equals) inner) :
    Taken finish .atom (opening.1 :: (inner ++ [closing.1])) := by
  intro more rest htail
  simp only [List.cons_append, List.append_assoc, List.nil_append]
  constructor
  · have hclosing : Tail finish (closing.1 :: more) (closing.1 :: more) :=
      tail_of_terminal closing more (by decide)
    obtain ⟨node, hnode⟩ := (hinner _ _ hclosing).1.exists_node
    exact ⟨opening.1, _, node, more, rfl,
      (operand_reads_group opening.kind_eq).mpr ⟨closing.1, hnode, closing.kind_eq⟩, htail⟩
  · intro _
    -- behind an expression the parentheses are those of a call with one argument
    have hargs := taken_someArgs hinner taken_lastArg
    rw [Phrase.tokens, List.append_nil] at hargs
    obtain ⟨nodes, hnodes⟩ := hargs closing more
    exact .call opening.kind_eq hnodes htail

/-- An operator before its operand is `Taken`; behind another expression, as the operator of a
difference. -/
theorem taken_prefixed (op : Terminal [.bang, .minus]) {right : List Token}
    (hright : Taken finish (.expr .unary) right) :
    Taken finish (.expr .unary) (op.1 :: right) := by
  intro more rest htail
  obtain ⟨hbegins, -⟩ := hright more rest htail
  constructor
  · obtain ⟨node, middle, hnode, -, hmiddle⟩ := hbegins.exists_nextExpr .unary
    refine ⟨op.1, _, .prefixOp op.1 op.1.lexeme node, middle, rfl, ?_, hmiddle⟩
    exact (operand_reads_unary (by simpa using op.2)).mpr ⟨node, hnode, rfl⟩
  · rintro ⟨token, htoken, hkind⟩
    rw [List.cons_append, List.head?_cons, Option.mem_some_iff] at htoken
    -- of the two operators only the minus can stand behind an expression
    have hminus : op.1.kind = .minus := by
      have hkinds := op.2
      rw [← htoken] at hkind
      grind
    obtain ⟨first, tokens, node, middle, htokens, hnode, hmiddle⟩ := hbegins
    rw [List.cons_append, htokens]
    refine .operator ?_ ?_ hnode hmiddle <;> rw [hminus] <;> decide

/-- An operator between its operands is `Taken`, with what stands behind the right one. -/
theorem taken_chainNext {level : Level} (op : Terminal level.operators) {right others : List Token}
    (hright : Taken finish (.expr level.operand) right)
    (hothers : Taken finish (.chain level) others) :
    Taken finish (.chain level) (op.1 :: (right ++ others)) := by
  intro more rest htail
  rw [List.cons_append, List.append_assoc]
  obtain ⟨first, tokens, node, middle, htokens, hnode, hmiddle⟩ :=
    (hright _ rest (hothers more rest htail)).1
  rw [htokens]
  have hop := Level.rank_of_mem_operators op.2
  refine .operator ?_ ?_ hnode hmiddle
  · intro hkind
    have hlevel := level.rank_le
    rw [← hop, hkind] at hlevel
    exact absurd hlevel (by decide)
  · rw [hop]
    cases level <;> decide

/-- An operand of one `token` is `Taken`. -/
theorem taken_token {kind : Kind} (token : Terminal [kind]) (h : kind ∉ [.openParen, .minus])
    {node : Node} (hreads : ∀ more, (operand finish token.1 more).Reads node more) :
    Taken finish .atom [token.1] := by
  intro more rest htail
  exact ⟨⟨token.1, more, node, more, rfl, hreads more, htail⟩,
    fun hjoins => absurd hjoins (not_joins token h)⟩

/-- A choice is `Taken`, if its condition and its blocks are. -/
theorem taken_ifElse (word : Terminal [.ifWord]) (opening : Terminal [.openParen])
    (closing : Terminal [.closeParen]) {cond yes no : List Token}
    (hcond : Taken finish (.expr .equals) cond) (hyes : Taken finish .block yes)
    (hno : Taken finish .alternative no) :
    Taken finish .atom (word.1 :: opening.1 :: (cond ++ closing.1 :: (yes ++ no))) := by
  intro more rest htail
  refine ⟨?_, fun hjoins => absurd hjoins (not_joins word (by decide))⟩
  obtain ⟨brace, body, stmts, hbody, hbrace, hstmts⟩ := hyes (no ++ more)
  obtain ⟨alternative, halternative⟩ := hno more rest htail
  have hclosing : Tail finish (closing.1 :: brace :: body) (closing.1 :: brace :: body) :=
    tail_of_terminal closing _ (by decide)
  obtain ⟨node, hnode⟩ := (hcond _ _ hclosing).1.exists_node
  simp only [List.cons_append, List.append_assoc]
  rw [hbody]
  refine ⟨word.1, _, .ifElse word.1 node (.block brace stmts) alternative, more, rfl, ?_, htail⟩
  exact (operand_reads_if word.kind_eq).mpr ⟨opening.1, _, node, closing.1, brace, body, stmts,
    no ++ more, alternative, rfl, opening.kind_eq, hnode, closing.kind_eq, hbrace, hstmts,
    halternative, rfl⟩

/-- A function is `Taken`, if its body is. -/
theorem taken_function (word : Terminal [.fnWord]) (opening : Terminal [.openParen])
    (names : Params) (closing : Terminal [.closeParen]) {body : List Token}
    (hbody : Taken finish .block body) :
    Taken finish .atom (word.1 :: opening.1 :: (names.tokens ++ closing.1 :: body)) := by
  intro more rest htail
  refine ⟨?_, fun hjoins => absurd hjoins (not_joins word (by decide))⟩
  obtain ⟨brace, inner, stmts, hinner, hbrace, hstmts⟩ := hbody more
  have hnames : (params finish (names.tokens ++ closing.1 :: brace :: inner)).Reads names.idents
      (brace :: inner) := params_reads.mpr ⟨names, closing, rfl, rfl⟩
  simp only [List.cons_append, List.append_assoc]
  rw [hinner]
  refine ⟨word.1, _, .function word.1 names.idents (.block brace stmts), more, rfl, ?_, htail⟩
  exact (operand_reads_fn word.kind_eq).mpr ⟨opening.1, _, names.idents, brace, inner, stmts, rfl,
    opening.kind_eq, hnames, hbrace, hstmts, rfl⟩

/-- **The parser gets over what any derivation spells**: by induction on `d`, with one of the lemmas
above for each rule of the grammar. -/
theorem taken_tokens (finish : Token) {s : Symbol} (d : Phrase s) : Taken finish s d.tokens := by
  induction d with
  -- what stops a row of statements is the end of the input or a closing brace
  | done =>
    intro limit hlimit
    have hend : Stops 1 limit ∧ dropSemicolon limit = limit := by
      cases limit with
      | nil => exact ⟨trivial, rfl⟩
      | cons token rest =>
        have hkind : token.kind = .closeBrace := hlimit token rfl
        simp [hkind, dropSemicolon, Kind.precedence, Precedence.rank]
    exact ⟨.done, limit, .stop hend.1, hend.2.symm ▸ .done⟩
  | next head tail ihhead ihtail => exact taken_next ihhead ihtail
  | stmt clause stop ih => exact taken_stmt stop ih
  | letClause word name sign value ih =>
    intro more rest htail
    obtain ⟨node, hnode⟩ := (ih more rest htail).1.exists_node
    refine ⟨⟨word.1, _, .letStmt word.1 name.ident node, rfl, ?_⟩,
      fun hjoins => absurd hjoins (not_joins word (by decide))⟩
    exact (stmt_reads_let word.kind_eq).mpr ⟨name.1, sign.1, _, node, rest, rfl, name.kind_eq,
      sign.kind_eq, hnode, rfl, rfl⟩
  | returnClause word value ih =>
    intro more rest htail
    obtain ⟨node, hnode⟩ := (ih more rest htail).1.exists_node
    refine ⟨⟨word.1, _, .returnStmt word.1 node, rfl, ?_⟩,
      fun hjoins => absurd hjoins (not_joins word (by decide))⟩
    exact (stmt_reads_return word.kind_eq).mpr ⟨node, rest, hnode, rfl, rfl⟩
  | exprClause value ih => exact taken_exprClause ih
  | block opening body closing ih =>
    intro more
    obtain ⟨nodes, hnodes⟩ :=
      (ih _ (closing.kind_of_mem_head? more)).1.exists_block closing.kind_eq
    exact ⟨opening.1, _, nodes, by simp [Phrase.tokens], opening.kind_eq, hnodes⟩
  | noElse =>
    intro more rest htail
    exact ⟨.hole, (alternative_reads_none htail.kind_ne_else).mpr ⟨rfl, rfl⟩⟩
  | elseBlock word body ih =>
    intro more rest htail
    obtain ⟨brace, inner, nodes, hinner, hbrace, hnodes⟩ := ih more
    exact ⟨.block brace nodes, (alternative_reads_else word.kind_eq).mpr
      ⟨brace, inner, nodes, hinner, hbrace, hnodes, rfl⟩⟩
  | binary _ first more ihfirst ihmore =>
    -- the operators of the level are the tail of its first operand
    intro others rest htail
    rw [Phrase.tokens, List.append_assoc]
    exact ihfirst _ rest (ihmore others rest htail)
  | chainEnd => exact fun more rest htail => htail
  | chainNext op right more ihright ihmore => exact taken_chainNext op ihright ihmore
  | prefixed op right ih => exact taken_prefixed op ih
  | unprefixed inner ih => exact ih
  | primary atom calls ihatom ihcalls =>
    intro others rest htail
    rw [Phrase.tokens, List.append_assoc]
    exact ihatom _ rest (ihcalls others rest htail)
  | noCall => exact fun more rest htail => htail
  | nextCall opening args closing more ihargs ihmore =>
    intro others rest htail
    obtain ⟨nodes, hnodes⟩ := ihargs closing (more.tokens ++ others)
    simp only [Phrase.tokens, List.cons_append, List.append_assoc]
    exact .call opening.kind_eq hnodes (ihmore others rest htail)
  | ident name =>
    exact taken_token name (by decide) fun more =>
      (operand_reads_ident name.kind_eq).mpr ⟨rfl, rfl⟩
  | number digits value spelled =>
    exact taken_token digits (by decide) fun more =>
      (operand_reads_int digits.kind_eq).mpr ⟨value, spelled, rfl, rfl⟩
  | text token =>
    exact taken_token token (by decide) fun more =>
      (operand_reads_string token.kind_eq).mpr ⟨rfl, rfl⟩
  | yesWord word =>
    exact taken_token word (by decide) fun more =>
      (operand_reads_true word.kind_eq).mpr ⟨rfl, rfl⟩
  | noWord word =>
    exact taken_token word (by decide) fun more =>
      (operand_reads_false word.kind_eq).mpr ⟨rfl, rfl⟩
  | group opening inner closing ih => exact taken_group opening closing ih
  | ifElse word opening cond closing yes no ihcond ihyes ihno =>
    exact taken_ifElse word opening closing ihcond ihyes ihno
  | function word opening params closing body ih =>
    exact taken_function word opening params closing ih
  | noArgs => exact fun closing more => ⟨[], (args_reads_close closing.kind_eq).mpr ⟨rfl, rfl⟩⟩
  | someArgs first more ihfirst ihmore => exact taken_someArgs ihfirst ihmore
  | lastArg => exact taken_lastArg
  | nextArg comma value more ihvalue ihmore => exact taken_nextArg comma ihvalue ihmore

end Parse

namespace Cursor

open Parse

/-- A `cursor` whose text is parsed without a complaint is read cleanly, as `Reads` says. -/
theorem parse_reads {cursor : Cursor} (h : cursor.parse.diagnostics = []) :
    (program cursor.finish.endToken cursor.tokens).Reads cursor.parse.program
      cursor.parse.rest := by
  obtain ⟨nodes, hresult⟩ := exists_program_result cursor.finish.endToken cursor.tokens
  refine ⟨?_, rfl, h⟩
  show _ = some (Option.getD _ [])
  rw [hresult, Option.getD_some]

/-- **The parser accepts exactly its grammar and builds the right tree.**  A text is read without a
complaint exactly when its tokens have a derivation, separated or not; and then it has exactly one
separated derivation, whose tree is the program read. -/
theorem parse_clean_iff_exists_phrase (cursor : Cursor) :
    (cursor.parse.diagnostics = [] ↔ ∃ d : Phrase .stmts, d.tokens = cursor.tokens) ∧
    (cursor.parse.diagnostics = [] →
      ∃ d : Phrase .stmts, d.Separated ∧ d.tokens = cursor.tokens ∧
        d.tree = cursor.parse.program ∧
        ∀ d' : Phrase .stmts, d'.Separated → d'.tokens = cursor.tokens → d' = d) := by
  refine ⟨⟨fun hclean => ?_, ?_⟩, fun hclean => ?_⟩
  · obtain ⟨d, -, htokens, -⟩ := program_sound (parse_reads hclean)
    exact ⟨d, htokens⟩
  · -- a program ends where the input does, so nothing is left to run on into
    rintro ⟨d, htokens⟩
    have hruns := (taken_tokens cursor.finish.endToken d [] (by simp)).1
    rw [List.append_nil, htokens] at hruns
    obtain ⟨nodes, -, -, hclean⟩ := hruns.exists_program
    exact hclean
  · obtain ⟨d, hsep, htokens, htree⟩ := program_sound (parse_reads hclean)
    refine ⟨d, hsep, htokens, htree, fun d' hsep' htokens' => ?_⟩
    exact Phrase.eq_of_tokens_eq hsep' hsep (htokens'.trans htokens.symm)

end Cursor
end TreeWalk
