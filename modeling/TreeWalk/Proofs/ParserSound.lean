import TreeWalk.Proofs.Grammar
import TreeWalk.Proofs.Reading

/-!
# Clean readings are derivations

Whatever the parser reads cleanly, the tokens it took have a separated derivation with the tree it
built.  For expressions the argument follows the parser's climb: what has been read so far binds
at some rank, the next token binds no more tightly than that (`Left`), and so each operator or call
the climb takes on fits a production of the grammar.

## Main definitions

* `Precedence.above` — the level of the expressions read above a floor.
* `Left` — an expression read so far, and the rank at which it binds.

## Main results

* `Parse.stmt_sound`, `Parse.expr_sound`, … — what each function of the parser reads.
* `Parse.program_sound` — **a program read cleanly has a separated derivation with its tree.**
-/

namespace TreeWalk

open Grammar

/-- The level of the expressions whose operators bind more tightly than the given floor. -/
def Precedence.above : Precedence → Level
  | lowest => .equals
  | equals => .order
  | order => .sum
  | sum => .product
  | product | unary | call => .unary

namespace Grammar

/-! ### Growing derivations -/

namespace Phrase

/-- A derivation of a `tight` level is one of a looser `level`, with the same tokens and the same
tree. -/
theorem exists_looser {level tight : Level} (h : level.rank ≤ tight.rank)
    (d : Phrase (.expr tight)) (hsep : d.Separated) :
    ∃ d' : Phrase (.expr level), d'.Separated ∧ d'.tokens = d.tokens ∧ d'.tree = d.tree := by
  by_cases heq : level.rank = tight.rank
  · obtain rfl := Level.eq_of_rank_eq heq
    exact ⟨d, hsep, rfl, rfl⟩
  · have hbound := tight.rank_le
    have hlevel : level ≠ .unary := by
      rintro rfl
      exact heq (Nat.le_antisymm h hbound)
    have hoperand := Level.rank_operand hlevel
    obtain ⟨d', hsep', htokens, htree⟩ :=
      exists_looser (show level.operand.rank ≤ tight.rank by omega) d hsep
    exact ⟨binary hlevel d' chainEnd, ⟨hsep', trivial⟩, by simp [tokens, htokens],
      by simp [tree, htree]⟩
termination_by 5 - level.rank
decreasing_by omega

/-- A `chain` of operators grows at its end: by induction on the chain, which grows at its start. -/
theorem exists_chain_append {level : Level} (op : Terminal level.operators)
    (right : Phrase (.expr level.operand)) (hright : right.Separated) :
    ∀ chain : Phrase (.chain level), chain.Separated →
      ∃ longer : Phrase (.chain level), longer.Separated ∧
        longer.tokens = chain.tokens ++ op.1 :: right.tokens ∧
        ∀ left, longer.tree left = .infixOp op.1 op.1.lexeme (chain.tree left) right.tree
  | chainEnd, _ => ⟨chainNext op right chainEnd, ⟨hright, trivial⟩, by simp [tokens],
      fun _ => rfl⟩
  | chainNext op' right' chain, hsep => by
    obtain ⟨longer, hlonger, htokens, htree⟩ := exists_chain_append op right hright chain hsep.2
    exact ⟨chainNext op' right' longer, ⟨hsep.1, hlonger⟩, by simp [tokens, htokens],
      fun left => htree _⟩

/-- A row of `calls` grows at its end: by induction on the row, which grows at its start. -/
theorem exists_calls_append (opening : Terminal [.openParen]) (args : Phrase .args)
    (hargs : args.Separated) (closing : Terminal [.closeParen]) :
    ∀ calls : Phrase .calls, calls.Separated →
      ∃ longer : Phrase .calls, longer.Separated ∧
        longer.tokens = calls.tokens ++ opening.1 :: (args.tokens ++ [closing.1]) ∧
        ∀ callee, longer.tree callee = .call opening.1 (calls.tree callee) args.tree
  | noCall, _ => ⟨nextCall opening args closing noCall, ⟨hargs, trivial⟩, by simp [tokens],
      fun _ => rfl⟩
  | nextCall opening' args' closing' calls, hsep => by
    obtain ⟨longer, hlonger, htokens, htree⟩ :=
      exists_calls_append opening args hargs closing calls hsep.2
    exact ⟨nextCall opening' args' closing' longer, ⟨hsep.1, hlonger⟩,
      by simp [tokens, htokens], fun callee => htree _⟩

end Phrase

/-- An expression read so far: the rank at which it binds, its tokens and its tree.  It is what
`climb` has at its `left`. -/
inductive Left : Nat → List Token → Node → Prop
  /-- An operand with the calls behind it. -/
  | primary (d : Phrase .primary) (hsep : d.Separated) : Left 6 d.tokens d.tree
  /-- An expression of a level. -/
  | expr {level : Level} (d : Phrase (.expr level)) (hsep : d.Separated) :
      Left level.rank d.tokens d.tree

namespace Left

variable {rank : Nat} {tokens : List Token} {node : Node}

theorem atom (d : Phrase .atom) (hsep : d.Separated) : Left 6 d.tokens d.tree := by
  have hleft := Left.primary (.primary d .noCall) ⟨hsep, trivial⟩
  simpa only [Phrase.tokens, Phrase.tree, List.append_nil, id_eq] using hleft

/-- An expression read so far is one of every looser `level`. -/
theorem exists_phrase (h : Left rank tokens node) {level : Level} (hrank : level.rank ≤ rank) :
    ∃ d : Phrase (.expr level), d.Separated ∧ d.tokens = tokens ∧ d.tree = node := by
  cases h with
  | primary d hsep => exact (Phrase.unprefixed d).exists_looser level.rank_le hsep
  | expr d hsep => exact d.exists_looser hrank hsep

/-- The operator `op` and its operand `right` are added to what was read so far. -/
theorem infixOp (h : Left rank tokens node) {level : Level} (hlevel : level ≠ .unary)
    (hrank : level.rank ≤ rank) (op : Terminal level.operators)
    (right : Phrase (.expr level.operand)) (hright : right.Separated) :
    Left level.rank (tokens ++ op.1 :: right.tokens)
      (.infixOp op.1 op.1.lexeme node right.tree) := by
  obtain ⟨d, hsep, rfl, rfl⟩ := h.exists_phrase hrank
  cases d with
  | binary loose first chain =>
    obtain ⟨longer, hlonger, htokens, htree⟩ :=
      Phrase.exists_chain_append op right hright chain hsep.2
    have hleft := Left.expr (.binary loose first longer) ⟨hsep.1, hlonger⟩
    simpa only [Phrase.tokens, Phrase.tree, htokens, htree, List.append_assoc] using hleft
  | prefixed op' right' => exact absurd rfl hlevel
  | unprefixed inner => exact absurd rfl hlevel

/-- A call with the given `args` is added to what was read so far. -/
theorem call (h : Left rank tokens node) (hrank : 6 ≤ rank) (opening : Terminal [.openParen])
    (args : Phrase .args) (hargs : args.Separated) (closing : Terminal [.closeParen]) :
    Left 6 (tokens ++ opening.1 :: (args.tokens ++ [closing.1]))
      (.call opening.1 node args.tree) := by
  cases h with
  | primary d hsep =>
    cases d with
    | primary atom calls =>
      obtain ⟨longer, hlonger, htokens, htree⟩ :=
        Phrase.exists_calls_append opening args hargs closing calls hsep.2
      have hleft := Left.primary (.primary atom longer) ⟨hsep.1, hlonger⟩
      simpa only [Phrase.tokens, Phrase.tree, htokens, htree, List.append_assoc] using hleft
  | @expr level d hsep =>
    have hbound := level.rank_le
    omega

end Left

end Grammar

/-- A token that continues an expression and is no parenthesis is among the `operators` of some
level. -/
theorem Kind.exists_level {kind : Kind} (hne : kind ≠ .openParen)
    (hrank : 0 < kind.precedence.rank) :
    ∃ level : Level, level ≠ .unary ∧ kind ∈ level.operators ∧
      kind.precedence.above = level.operand := by
  cases kind with
  | equalEqual | bangEqual => exact ⟨.equals, by decide⟩
  | less | greater => exact ⟨.order, by decide⟩
  | plus | minus => exact ⟨.sum, by decide⟩
  | star | slash => exact ⟨.product, by decide⟩
  | openParen => exact absurd rfl hne
  | _ => exact absurd hrank (Nat.lt_irrefl 0)

namespace Parse

/-- An operator of a `level` that binds more tightly than the `floor` is of a level above it. -/
theorem above_rank_le {floor : Precedence} {level : Level} (h : floor.rank < level.rank) :
    floor.above.rank ≤ level.rank := by
  revert h
  cases floor <;> cases level <;> decide

/-! ### Parameters and semicolons -/

variable {finish : Token} {tokens rest : List Token} {names : List Ident}

/-- `moreParams` reads cleanly exactly if there are names, each with a comma in front, up to a
closing parenthesis. -/
theorem moreParams_reads :
    (moreParams finish tokens).Reads names rest ↔
      ∃ (params : List (Terminal [.comma] × Terminal [.ident])) (closing : Terminal [.closeParen]),
        tokens = (params.flatMap fun (comma, name) => [comma.1, name.1]) ++ closing.1 :: rest ∧
        names = params.map fun (_, name) => name.ident := by
  -- the cases of `moreParams`; in each of them the next token decides the form of `params`
  fun_induction moreParams finish tokens generalizing names rest with
  | case1 => simp
  | case2 token hcomma =>
    refine iff_of_false fail_reads ?_
    rintro ⟨params, closing, htokens, -⟩
    cases params with
    | nil =>
      rw [closing.kind_of_cons_eq htokens] at hcomma
      exact absurd hcomma (by decide)
    | cons param params => simp at htokens
  | case3 token hcomma name others hname ih =>
    simp only [andThen_reads, widen_reads, accept_reads, ih, exists_prop]
    constructor
    · rintro ⟨_, _, ⟨params, closing, rfl, rfl⟩, rfl, rfl⟩
      exact ⟨(.of hcomma, .of hname) :: params, closing, rfl, rfl⟩
    · rintro ⟨params, closing, htokens, rfl⟩
      cases params with
      | nil =>
        rw [closing.kind_of_cons_eq htokens] at hcomma
        exact absurd hcomma (by decide)
      | cons param params =>
        obtain ⟨-, htokens⟩ := List.cons.inj htokens
        obtain ⟨rfl, rfl⟩ := List.cons.inj htokens
        exact ⟨_, _, ⟨params, closing, rfl, rfl⟩, rfl, rfl⟩
  | case4 token hcomma name others hname =>
    refine iff_of_false fail_reads ?_
    rintro ⟨params, closing, htokens, -⟩
    cases params with
    | nil =>
      rw [closing.kind_of_cons_eq htokens] at hcomma
      exact absurd hcomma (by decide)
    | cons param params =>
      obtain ⟨-, htokens⟩ := List.cons.inj htokens
      exact hname (param.2.kind_of_cons_eq htokens)
  | case5 token others hcomma hclose =>
    rw [accept_reads]
    constructor
    · rintro ⟨rfl, rfl⟩
      exact ⟨[], .of hclose, rfl, rfl⟩
    · rintro ⟨params, closing, htokens, rfl⟩
      cases params with
      | nil => exact ⟨rfl, (List.cons.inj htokens).2⟩
      | cons param params => exact absurd (param.1.kind_of_cons_eq htokens) hcomma
  | case6 token others hcomma hclose =>
    refine iff_of_false fail_reads ?_
    rintro ⟨params, closing, htokens, -⟩
    cases params with
    | nil => exact hclose (closing.kind_of_cons_eq htokens)
    | cons param params => exact hcomma (param.1.kind_of_cons_eq htokens)

/-- `params` reads cleanly exactly if there are `Params` of the grammar, up to a closing
parenthesis. -/
theorem params_reads :
    (params finish tokens).Reads names rest ↔
      ∃ (params : Params) (closing : Terminal [.closeParen]),
        tokens = params.tokens ++ closing.1 :: rest ∧ names = params.idents := by
  cases tokens with
  | nil =>
    rw [params]
    refine iff_of_false fail_reads ?_
    rintro ⟨params, closing, htokens, -⟩
    simp at htokens
  | cons token others =>
    rw [params]
    split
    · next hclose =>
      rw [accept_reads]
      constructor
      · rintro ⟨rfl, rfl⟩
        exact ⟨.none, .of hclose, rfl, rfl⟩
      · rintro ⟨params, closing, htokens, rfl⟩
        cases params with
        | none => exact ⟨rfl, (List.cons.inj htokens).2⟩
        | some first more =>
          rw [first.kind_of_cons_eq htokens] at hclose
          exact absurd hclose (by decide)
    · next hclose =>
      split
      · next hident =>
        simp only [andThen_reads, widen_reads, accept_reads, moreParams_reads, exists_prop]
        constructor
        · rintro ⟨_, _, ⟨more, closing, rfl, rfl⟩, rfl, rfl⟩
          exact ⟨.some (.of hident) more, closing, rfl, rfl⟩
        · rintro ⟨params, closing, htokens, rfl⟩
          cases params with
          | none => exact absurd (closing.kind_of_cons_eq htokens) hclose
          | some first more =>
            obtain ⟨rfl, rfl⟩ := List.cons.inj htokens
            exact ⟨_, _, ⟨more, closing, rfl, rfl⟩, rfl, rfl⟩
      · next hident =>
        refine iff_of_false fail_reads ?_
        rintro ⟨params, closing, htokens, -⟩
        cases params with
        | none => exact hclose (closing.kind_of_cons_eq htokens)
        | some first more => exact hident (first.kind_of_cons_eq htokens)

/-- What stands behind a clause is its semicolon, or it starts with no token that continues it:
`dropSemicolon` is the choice between the two. -/
theorem exists_stop {middle : List Token} (hrank : nextRank middle ≤ 0) :
    ∃ stop : Option (Terminal [.semicolon]),
      (stop.map (·.1)).toList ++ dropSemicolon middle = middle ∧
      (stop.isSome ∨ nextRank (dropSemicolon middle) = 0) := by
  cases middle with
  | nil => exact ⟨none, rfl, .inr rfl⟩
  | cons token others =>
    rw [dropSemicolon]
    split
    · next hkind => exact ⟨some ⟨token, by simp [hkind]⟩, rfl, .inl rfl⟩
    · exact ⟨none, rfl, .inr (Nat.le_zero.mp hrank)⟩

/-- No token binds more tightly than a call, at rank 6. -/
theorem nextRank_le (tokens : List Token) : nextRank tokens ≤ 6 := by
  cases tokens with
  | nil => decide
  | cons token others =>
    rw [nextRank_cons]
    cases token.kind.precedence <;> decide

/-- What starts behind an open statement without continuing it keeps the statements apart, as
`Separated` asks. -/
theorem separated_of_nextRank {head : Phrase .stmt} {tail : Phrase .stmts} {more : List Token}
    (h : head.closed ∨ nextRank (tail.tokens ++ more) = 0) :
    head.closed ∨ ∀ token ∈ tail.tokens.head?, token.kind ∉ [.openParen, .minus] := by
  rcases h with hclosed | hrank
  · exact .inl hclosed
  · refine .inr fun token htoken hkind => ?_
    obtain ⟨others, htokens⟩ := List.head?_eq_some_iff.mp htoken
    rw [htokens, List.cons_append, nextRank_cons] at hrank
    simp only [List.mem_cons, List.not_mem_nil, or_false] at hkind
    rcases hkind with hkind | hkind <;> rw [hkind] at hrank <;> exact absurd hrank (by decide)

/-! ### The functions of the parser -/

mutual

theorem stmt_sound {finish token : Token} {tokens rest : List Token} {node : Node}
    (h : (stmt finish token tokens).Reads node rest) :
    ∃ d : Phrase .stmt, d.Separated ∧ d.tokens ++ rest = token :: tokens ∧ d.tree = node ∧
      (d.closed ∨ nextRank rest = 0) := by
  by_cases hlet : token.kind = .letWord
  · obtain ⟨name, sign, more, value, middle, htokens, hname, hsign, hvalue, rfl, rfl⟩ :=
      (stmt_reads_let hlet).mp h
    have hlength : tokens.length = more.length + 2 := by rw [htokens]; rfl
    obtain ⟨d, hsep, hmore, rfl, hrank⟩ := nextExpr_sound hvalue
    obtain ⟨stop, hstop, hclosed⟩ := exists_stop hrank
    refine ⟨.stmt (.letClause (.of hlet) (.of hname) (.of hsign) d) stop, hsep, ?_, rfl, hclosed⟩
    simp only [Phrase.tokens, List.cons_append, List.append_assoc, hstop, htokens, ← hmore]
    rfl
  by_cases hreturn : token.kind = .returnWord
  · obtain ⟨value, middle, hvalue, rfl, rfl⟩ := (stmt_reads_return hreturn).mp h
    obtain ⟨d, hsep, htokens, rfl, hrank⟩ := nextExpr_sound hvalue
    obtain ⟨stop, hstop, hclosed⟩ := exists_stop hrank
    refine ⟨.stmt (.returnClause (.of hreturn) d) stop, hsep, ?_, rfl, hclosed⟩
    simp only [Phrase.tokens, List.cons_append, List.append_assoc, hstop, ← htokens]
    rfl
  · obtain ⟨value, middle, hvalue, rfl, rfl⟩ := (stmt_reads_expr hlet hreturn).mp h
    obtain ⟨d, hsep, htokens, rfl, hrank⟩ := expr_sound hvalue
    obtain ⟨stop, hstop, hclosed⟩ := exists_stop hrank
    refine ⟨.stmt (.exprClause d) stop, hsep, ?_, ?_, hclosed⟩
    · simp only [Phrase.tokens, List.append_assoc, hstop]
      exact htokens
    · -- the statement keeps its first token, which is the first one of the expression
      change Node.exprStmt (d.tokens.headD default) d.tree = _
      rw [d.headD_tokens htokens]
termination_by 5 * tokens.length + 4
decreasing_by all_goals omega

theorem block_sound {finish : Token} {tokens : List Token} :
    ∀ {rest : List Token} {nodes : List Node}, (block finish tokens).Reads nodes rest →
      ∃ (d : Phrase .stmts) (closing : Terminal [.closeBrace]), d.Separated ∧
        d.tokens ++ closing.1 :: rest = tokens ∧ d.tree = nodes := by
  intro rest nodes h
  cases htokens : tokens with
  | nil => exact absurd (htokens ▸ h) block_reads_nil
  | cons token others =>
    have hlength : tokens.length = others.length + 1 := by rw [htokens]; rfl
    rw [htokens] at h
    by_cases hkind : token.kind = .closeBrace
    · obtain ⟨rfl, rfl⟩ := (block_reads_close hkind).mp h
      exact ⟨.done, .of hkind, trivial, rfl, rfl⟩
    · obtain ⟨node, middle, stmts, hnode, hstmts, rfl⟩ := (block_reads_next hkind).mp h
      have hmiddle := hnode.length_le
      obtain ⟨head, hhead, hfirst, rfl, hclosed⟩ := stmt_sound hnode
      obtain ⟨tail, closing, htail, hrest, rfl⟩ := block_sound hstmts
      rw [← hrest] at hfirst hclosed
      refine ⟨.next head tail, closing, ⟨hhead, htail, separated_of_nextRank hclosed⟩, ?_, rfl⟩
      rw [Phrase.tokens, List.append_assoc]
      exact hfirst
termination_by 5 * tokens.length
decreasing_by all_goals omega

theorem nextExpr_sound {finish : Token} {floor : Precedence} {tokens rest : List Token}
    {node : Node} (h : (nextExpr finish floor tokens).Reads node rest) :
    ∃ d : Phrase (.expr floor.above), d.Separated ∧ d.tokens ++ rest = tokens ∧ d.tree = node ∧
      nextRank rest ≤ floor.rank := by
  cases htokens : tokens with
  | nil => exact absurd (htokens ▸ h) nextExpr_reads_nil
  | cons token others =>
    have hlength : tokens.length = others.length + 1 := by rw [htokens]; rfl
    rw [htokens, nextExpr_reads_cons] at h
    exact expr_sound h
termination_by 5 * tokens.length
decreasing_by all_goals omega

theorem expr_sound {finish token : Token} {floor : Precedence} {tokens rest : List Token}
    {node : Node} (h : (expr finish floor token tokens).Reads node rest) :
    ∃ d : Phrase (.expr floor.above), d.Separated ∧ d.tokens ++ rest = token :: tokens ∧
      d.tree = node ∧ nextRank rest ≤ floor.rank := by
  obtain ⟨left, middle, hleft, hclimb⟩ := expr_reads.mp h
  have hlength := hleft.length_le
  obtain ⟨rank, spelled, hspelled, htokens, hrank, hlow⟩ := operand_sound hleft
  rw [← htokens]
  exact climb_sound hspelled hrank (Nat.le_trans (Level.rank_le _) hlow) hclimb
termination_by 5 * tokens.length + 3
decreasing_by all_goals omega

theorem operand_sound {finish token : Token} {tokens rest : List Token} {node : Node}
    (h : (operand finish token tokens).Reads node rest) :
    ∃ rank spelled, Left rank spelled node ∧ spelled ++ rest = token :: tokens ∧
      nextRank rest ≤ rank ∧ 5 ≤ rank := by
  have hkinds := kind_of_operand_reads h
  simp only [List.mem_cons, List.not_mem_nil, or_false, ← or_assoc] at hkinds
  rcases hkinds with (((((((hkind | hkind) | hkind) | hkind) | hkind) | hkind) | hkind) | hkind) |
    hkind
  -- an operator in front takes what binds more tightly, so what follows binds no more tightly
  · obtain ⟨right, hright, rfl⟩ := (operand_reads_unary hkind).mp h
    obtain ⟨d, hsep, htokens, rfl, hrank⟩ := nextExpr_sound hright
    have hop : token.kind ∈ [.bang, .minus] := by simpa using hkind
    refine ⟨_, _, .expr (.prefixed ⟨token, hop⟩ d) hsep, ?_, hrank, Nat.le_refl _⟩
    rw [← htokens]
    rfl
  · obtain ⟨rfl, rfl⟩ := (operand_reads_ident hkind).mp h
    exact ⟨_, _, .atom (.ident (.of hkind)) trivial, rfl, nextRank_le _, by decide⟩
  · obtain ⟨value, hvalue, rfl, rfl⟩ := (operand_reads_int hkind).mp h
    exact ⟨_, _, .atom (.number (.of hkind) value hvalue) trivial, rfl, nextRank_le _, by decide⟩
  · obtain ⟨rfl, rfl⟩ := (operand_reads_string hkind).mp h
    exact ⟨_, _, .atom (.text (.of hkind)) trivial, rfl, nextRank_le _, by decide⟩
  · obtain ⟨rfl, rfl⟩ := (operand_reads_true hkind).mp h
    exact ⟨_, _, .atom (.yesWord (.of hkind)) trivial, rfl, nextRank_le _, by decide⟩
  · obtain ⟨rfl, rfl⟩ := (operand_reads_false hkind).mp h
    exact ⟨_, _, .atom (.noWord (.of hkind)) trivial, rfl, nextRank_le _, by decide⟩
  · obtain ⟨closing, hinner, hclosing⟩ := (operand_reads_group hkind).mp h
    obtain ⟨d, hsep, htokens, rfl, -⟩ := nextExpr_sound hinner
    refine ⟨_, _, .atom (.group (.of hkind) d (.of hclosing)) hsep, ?_, nextRank_le _, by decide⟩
    rw [← htokens]
    simp [Phrase.tokens, Terminal.of, Precedence.above]
  · obtain ⟨opening, more, cond, closing, brace, body, yes, middle, no, htokens, hopening, hcond,
      hclosing, hbrace, hyes, hno, rfl⟩ := (operand_reads_if hkind).mp h
    have hlength : tokens.length = more.length + 1 := by rw [htokens]; rfl
    have hbody : body.length + 2 ≤ more.length := hcond.length_le
    have hmiddle := hyes.length_le
    obtain ⟨dcond, hsepCond, hmore, rfl, -⟩ := nextExpr_sound hcond
    obtain ⟨dyes, curly, hsepYes, hyesTokens, rfl⟩ := block_sound hyes
    obtain ⟨dno, hsepNo, hnoTokens, rfl⟩ := alternative_sound hno
    refine ⟨_, _, .atom (.ifElse (.of hkind) (.of hopening) dcond (.of hclosing)
      (.block (.of hbrace) dyes curly) dno) ⟨hsepCond, hsepYes, hsepNo⟩, ?_, nextRank_le _,
      by decide⟩
    rw [htokens, ← hmore, ← hyesTokens, ← hnoTokens]
    simp [Phrase.tokens, Terminal.of, Precedence.above]
  · obtain ⟨opening, more, names, brace, body, stmts, htokens, hopening, hnames, hbrace, hstmts,
      rfl⟩ := (operand_reads_fn hkind).mp h
    have hlength : tokens.length = more.length + 1 := by rw [htokens]; rfl
    have hbody : body.length + 1 ≤ more.length := hnames.length_le
    obtain ⟨params, closing, hmore, rfl⟩ := params_reads.mp hnames
    obtain ⟨d, curly, hsep, hbodyTokens, rfl⟩ := block_sound hstmts
    refine ⟨_, _, .atom (.function (.of hkind) (.of hopening) params closing
      (.block (.of hbrace) d curly)) hsep, ?_, nextRank_le _, by decide⟩
    rw [htokens, hmore, ← hbodyTokens]
    simp [Phrase.tokens, Terminal.of]
termination_by 5 * tokens.length + 2
decreasing_by all_goals omega

theorem alternative_sound {finish : Token} {tokens rest : List Token} {node : Node}
    (h : (alternative finish tokens).Reads node rest) :
    ∃ d : Phrase .alternative, d.Separated ∧ d.tokens ++ rest = tokens ∧ d.tree = node := by
  by_cases hnext : ∀ token ∈ tokens.head?, token.kind ≠ .elseWord
  · obtain ⟨rfl, rfl⟩ := (alternative_reads_none hnext).mp h
    exact ⟨.noElse, trivial, rfl, rfl⟩
  · cases htokens : tokens with
    | nil => exact absurd (by simp [htokens]) hnext
    | cons token others =>
      have hkind : token.kind = .elseWord := by simpa [htokens] using hnext
      rw [htokens] at h
      obtain ⟨brace, body, stmts, hothers, hbrace, hstmts, rfl⟩ :=
        (alternative_reads_else hkind).mp h
      have hlength : tokens.length = body.length + 2 := by rw [htokens, hothers]; rfl
      obtain ⟨d, curly, hsep, hbody, rfl⟩ := block_sound hstmts
      refine ⟨.elseBlock (.of hkind) (.block (.of hbrace) d curly), hsep, ?_, rfl⟩
      rw [hothers, ← hbody]
      simp [Phrase.tokens, Terminal.of]
termination_by 5 * tokens.length + 1
decreasing_by all_goals omega

theorem climb_sound {finish : Token} {floor : Precedence} {left node : Node} {rank : Nat}
    {spelled tokens rest : List Token} (hleft : Left rank spelled left)
    (hrank : nextRank tokens ≤ rank) (habove : floor.above.rank ≤ rank)
    (h : (climb finish floor left tokens).Reads node rest) :
    ∃ d : Phrase (.expr floor.above), d.Separated ∧ d.tokens ++ rest = spelled ++ tokens ∧
      d.tree = node ∧ nextRank rest ≤ floor.rank := by
  by_cases hstop : nextRank tokens ≤ floor.rank
  · obtain ⟨rfl, rfl⟩ := (climb_reads_stop hstop).mp h
    obtain ⟨d, hsep, htokens, htree⟩ := hleft.exists_phrase habove
    exact ⟨d, hsep, by rw [htokens], htree, hstop⟩
  cases htokens : tokens with
  | nil => exact absurd (by rw [htokens]; exact Nat.zero_le _) hstop
  | cons token others =>
    have hlength : tokens.length = others.length + 1 := by rw [htokens]; rfl
    rw [htokens, nextRank_cons] at hrank hstop
    rw [htokens] at h
    have hlt := Nat.lt_of_not_le hstop
    by_cases hkind : token.kind = .openParen
    · -- a parenthesis binds most tightly of all, so what stands before it is an operand with calls
      obtain ⟨values, middle, hvalues, hclimb⟩ := (climb_reads_call hkind hlt).mp h
      have hmiddle := hvalues.length_le
      obtain ⟨d, closing, hsep, hothers, rfl⟩ := args_sound hvalues
      rw [hkind] at hrank
      have hcall := hleft.call hrank (.of hkind) d hsep closing
      obtain ⟨d', hsep', htokens', htree, hrest⟩ :=
        climb_sound hcall (nextRank_le middle) (Nat.le_trans (Level.rank_le _) (by decide)) hclimb
      refine ⟨d', hsep', ?_, htree, hrest⟩
      rw [htokens', ← hothers]
      simp [Terminal.of]
    · obtain ⟨right, middle, hright, hclimb⟩ := (climb_reads_operator hkind hlt).mp h
      have hmiddle := hright.length_le
      obtain ⟨level, hlevel, hop, hoperand⟩ :=
        Kind.exists_level hkind (Nat.lt_of_le_of_lt (Nat.zero_le _) hlt)
      have hopRank := Level.rank_of_mem_operators hop
      obtain ⟨d, hsep, hothers, rfl, hnext⟩ := nextExpr_sound hright
      rw [hopRank] at hrank hnext hlt
      -- the right operand was read above the operator's own precedence, which is the level of the
      -- operands of `level`, but not by definition
      revert d
      rw [hoperand]
      intro d hsep hothers hright hclimb
      have hinfix := hleft.infixOp hlevel hrank ⟨token, hop⟩ d hsep
      obtain ⟨d', hsep', htokens', htree, hrest⟩ :=
        climb_sound hinfix hnext (above_rank_le hlt) hclimb
      refine ⟨d', hsep', ?_, htree, hrest⟩
      rw [htokens', ← hothers]
      simp
termination_by 5 * tokens.length + 1
decreasing_by all_goals omega

theorem args_sound {finish : Token} {tokens rest : List Token} {nodes : List Node}
    (h : (args finish tokens).Reads nodes rest) :
    ∃ (d : Phrase .args) (closing : Terminal [.closeParen]), d.Separated ∧
      d.tokens ++ closing.1 :: rest = tokens ∧ d.tree = nodes := by
  cases htokens : tokens with
  | nil => exact absurd (htokens ▸ h) args_reads_nil
  | cons token others =>
    have hlength : tokens.length = others.length + 1 := by rw [htokens]; rfl
    rw [htokens] at h
    by_cases hkind : token.kind = .closeParen
    · obtain ⟨rfl, rfl⟩ := (args_reads_close hkind).mp h
      exact ⟨.noArgs, .of hkind, trivial, rfl, rfl⟩
    · obtain ⟨value, middle, values, hvalue, hvalues, rfl⟩ := (args_reads_next hkind).mp h
      have hmiddle := hvalue.length_le
      obtain ⟨first, hfirst, hothers, rfl, -⟩ := expr_sound hvalue
      obtain ⟨more, closing, hmore, hrest, rfl⟩ := moreArgs_sound hvalues
      refine ⟨.someArgs first more, closing, ⟨hfirst, hmore⟩, ?_, rfl⟩
      simp only [Phrase.tokens, List.append_assoc, hrest]
      exact hothers
termination_by 5 * tokens.length
decreasing_by all_goals omega

theorem moreArgs_sound {finish : Token} {tokens rest : List Token} {nodes : List Node}
    (h : (moreArgs finish tokens).Reads nodes rest) :
    ∃ (d : Phrase .moreArgs) (closing : Terminal [.closeParen]), d.Separated ∧
      d.tokens ++ closing.1 :: rest = tokens ∧ d.tree = nodes := by
  cases htokens : tokens with
  | nil => exact absurd (htokens ▸ h) moreArgs_reads_nil
  | cons token others =>
    have hlength : tokens.length = others.length + 1 := by rw [htokens]; rfl
    rw [htokens] at h
    by_cases hkind : token.kind = .comma
    · obtain ⟨value, middle, values, hvalue, hvalues, rfl⟩ := (moreArgs_reads_comma hkind).mp h
      have hmiddle := hvalue.length_le
      obtain ⟨first, hfirst, hothers, rfl, -⟩ := nextExpr_sound hvalue
      obtain ⟨more, closing, hmore, hrest, rfl⟩ := moreArgs_sound hvalues
      refine ⟨.nextArg (.of hkind) first more, closing, ⟨hfirst, hmore⟩, ?_, rfl⟩
      simp only [Phrase.tokens, List.cons_append, List.append_assoc, hrest, ← hothers]
      rfl
    · obtain ⟨hclose, rfl, rfl⟩ := (moreArgs_reads_other hkind).mp h
      exact ⟨.lastArg, .of hclose, trivial, rfl, rfl⟩
termination_by 5 * tokens.length
decreasing_by all_goals omega

end

/-- **A program read cleanly has a separated derivation with its tree**: soundness of `program` for
the grammar. -/
theorem program_sound {finish : Token} {tokens rest : List Token} {nodes : Program}
    (h : (program finish tokens).Reads nodes rest) :
    ∃ d : Phrase .stmts, d.Separated ∧ d.tokens = tokens ∧ d.tree = nodes := by
  induction hlength : tokens.length using Nat.strongRecOn generalizing tokens nodes with
  | _ length ih =>
    cases tokens with
    | nil =>
      obtain ⟨rfl, -⟩ := program_reads_nil.mp h
      exact ⟨.done, trivial, rfl, rfl⟩
    | cons token others =>
      obtain ⟨node, middle, stmts, hnode, hstmts, rfl⟩ := program_reads_cons.mp h
      have hmiddle : middle.length < length := by
        rw [← hlength, List.length_cons]
        exact Nat.lt_succ_of_le hnode.length_le
      obtain ⟨head, hhead, htokens, rfl, hclosed⟩ := stmt_sound hnode
      obtain ⟨tail, htail, rfl, rfl⟩ := ih middle.length hmiddle hstmts rfl
      rw [← List.append_nil tail.tokens] at hclosed
      exact ⟨.next head tail, ⟨hhead, htail, separated_of_nextRank hclosed⟩, htokens, rfl⟩

end Parse
end TreeWalk
