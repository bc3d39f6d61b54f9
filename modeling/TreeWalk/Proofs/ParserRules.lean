import TreeWalk.Proofs.CallTree

/-!
# Rules that all readings keep

Seen from outside, a reading is a few things: the tokens it is given, the calls it makes, whether it
comes to a value, the tokens it leaves, and what it complains of.  An `Account` is a statement about
these.  All functions of the parser are put together from a few moves: a token is taken, one is
missed, one is refused, a call is made, one reading follows another.  So an account holds of every
reading as soon as the moves keep it (`Rules`), and nothing else about the parser's code is needed
to show that it does.

Two things are watched on the way.  Blocks have an account of their own: what a block does starts
behind its opening brace and ends behind its closing one, so that braces are the only tokens that
cannot simply be taken.  And calls are paid for: each token that is taken pays for eight of them,
and `spare` is how many of the calls made are not paid for, or how many more would have been, if it
is negative.

## Main definitions

* `Parse.Account`, `Parse.Meets` — a statement about readings, and a reading of which it holds.
* `Parse.Account.plain` — an account that does not look at the calls.
* `Parse.Rules` — the moves keep an account.

## Main results

* `Parse.stmt_meets`, `Parse.expr_meets`, `Parse.block_meets` — **what the moves keep, every
  construct keeps.**
-/

namespace TreeWalk

/-- Whether tokens of this kind open or close a block. -/
def Kind.isBrace (kind : Kind) : Bool := kind = .openBrace || kind = .closeBrace

namespace Parse

variable {α β : Type} {bound : Nat}

/-- A statement about the tokens given, the calls made, how many of these are not paid for, whether
there is a value, the tokens left and the diagnostics. -/
def Account : Type :=
  List Token → List Call → Int → Bool → List Token → List Diagnostic → Prop

/-- An `Account` that leaves the calls and what they cost out. -/
abbrev Account.plain (about : List Token → Bool → List Token → List Diagnostic → Prop) : Account :=
  fun tokens _ _ => about tokens

/-- The `account` holds of the reading `parse`, given its `tokens`, the `calls` that it makes itself
and how many calls are not paid for. -/
def Meets (account : Account) (tokens : List Token) (calls : List Call) (spare : Int)
    (parse : Parse α bound) : Prop :=
  account tokens calls spare parse.result.isSome parse.rest parse.diagnostics

/-- The moves of the parser keep the account `outside`; `inside` is the account of what a block does
behind its opening brace. -/
structure Rules (finish : Token) (outside inside : Account) : Prop where
  /-- Nothing is done. -/
  still : ∀ tokens, outside tokens [] 0 true tokens []
  /-- A token that is no brace is taken, and pays for eight calls. -/
  taken : ∀ {token tokens calls spare ok rest diagnostics}, token.kind.isBrace = false →
    outside tokens calls spare ok rest diagnostics →
    outside (token :: tokens) calls (spare - 8) ok rest diagnostics
  /-- One reading follows another. -/
  onward : ∀ {tokens calls spare middle more spare' ok rest diagnostics others},
    outside tokens calls spare true middle diagnostics → outside middle more spare' ok rest others →
    outside tokens (calls ++ more) (spare + spare') ok rest (diagnostics ++ others)
  /-- What is done on the way is done by a call, which has nothing to say itself. -/
  called : ∀ {call tokens spare ok rest diagnostics}, call.complaint? finish = none →
    call.tokens <:+ tokens → outside tokens (call.callees finish) spare ok rest diagnostics →
    outside tokens [call] (spare + 1) ok rest diagnostics
  /-- More calls may be left to pay for. -/
  spared : ∀ {tokens calls spare spare' ok rest diagnostics}, spare ≤ spare' →
    outside tokens calls spare ok rest diagnostics → outside tokens calls spare' ok rest diagnostics
  /-- Another token should have come next. -/
  missed : ∀ wanted tokens, outside tokens [] 0 false tokens
    [.of (.expected wanted (tokens.headD finish).kind) (tokens.headD finish).pos]
  /-- No expression starts with the token. -/
  refused : ∀ token tokens, outside (token :: tokens) [] (-8) false tokens
    [.of (.noExpression token.kind) token.pos]
  /-- No expression starts at the end of the input. -/
  refusedEnd : outside [] [] 0 false [] [.of (.noExpression finish.kind) finish.pos]
  /-- A number is too large. -/
  tooLarge : ∀ token tokens, token.kind = .int → outside (token :: tokens) [] (-8) false tokens
    [.of (.tooLarge token.lexeme) token.pos]
  /-- A block is read behind its opening brace. -/
  braced : ∀ {brace tokens ok rest diagnostics}, brace.kind = .openBrace →
    inside tokens ((Call.block tokens).callees finish) 0 ok rest diagnostics →
    outside (brace :: tokens) [.block tokens] (-7) ok rest diagnostics
  /-- The block ends with its closing brace. -/
  closed : ∀ {token} tokens, token.kind = .closeBrace → inside (token :: tokens) [] 0 true tokens []
  /-- The input ends inside the block. -/
  unclosed : inside [] [] 0 false [] [.of (.expected .closeBrace .eof) finish.pos]
  /-- A statement of the block, which may be left out, and what follows it. -/
  row : ∀ {token tokens ok rest others}, token.kind ≠ .closeBrace →
    Meets outside (token :: tokens) ((Call.stmt token tokens).callees finish) (-2)
      (stmt finish token tokens) →
    inside (stmt finish token tokens).rest
      ((Call.block (stmt finish token tokens).rest).callees finish) 0 ok rest others →
    inside (token :: tokens) [.stmt token tokens, .block (stmt finish token tokens).rest] 0 ok rest
      ((stmt finish token tokens).diagnostics ++ others)

variable {finish token : Token} {tokens rest : List Token} {outside inside : Account}
  {calls : List Call} {spare spare' : Int}

namespace Meets

/-- Reading behind a token that is no brace, which pays for eight calls. -/
theorem take {parse : Parse α bound} (hparse : Meets outside tokens calls spare parse)
    (h : Rules finish outside inside) (hkind : token.kind.isBrace = false) :
    Meets outside (token :: tokens) calls (spare - 8) parse :=
  h.taken hkind hparse

theorem spared {parse : Parse α bound} (hparse : Meets outside tokens calls spare parse)
    (h : Rules finish outside inside) (hspare : spare ≤ spare') :
    Meets outside tokens calls spare' parse :=
  h.spared hspare hparse

/-- What a call of something other than a statement does is what its `callees` do. -/
theorem called {parse : Parse α bound} {call : Call}
    (hparse : Meets outside tokens (call.callees finish) spare parse)
    (h : Rules finish outside inside) (htokens : call.tokens <:+ tokens)
    (hcomplaint : call.complaint? finish = none := by rfl) :
    Meets outside tokens [call] (spare + 1) parse :=
  h.called hcomplaint htokens hparse

/-- A block with its opening brace, as a single call. -/
theorem braced {brace : Token} (hblock : Meets inside tokens ((Call.block tokens).callees finish) 0
    (block finish tokens)) (h : Rules finish outside inside) (hbrace : brace.kind = .openBrace) :
    Meets outside (brace :: tokens) [.block tokens] (-7) (block finish tokens) :=
  h.braced hbrace hblock

/-- `Parse.andThen`: reading on behind `first`; if that fails no more calls are made. -/
theorem andThen {first : Parse α bound}
    {next : α → (rest : List Token) → rest.length ≤ bound → Parse β rest.length}
    {more : α → List Token → List Call} (hfirst : Meets outside tokens calls spare first)
    (h : Rules finish outside inside)
    (hnext : ∀ value rest hrest, Meets outside rest (more value rest) spare'
      (next value rest hrest)) (hspare : 0 ≤ spare' := by decide) :
    Meets outside tokens (calls ++ Parse.onward first more) (spare + spare')
      (first.andThen next) := by
  obtain ⟨result, rest, diagnostics, hrest⟩ := first
  cases result with
  | none =>
    have hcalls : calls ++ Parse.onward ⟨none, rest, diagnostics, hrest⟩ more = calls :=
      List.append_nil calls
    rw [hcalls]
    exact hfirst.spared h (by omega)
  | some value => exact h.onward hfirst (hnext value rest hrest)

/-- `andThen` behind a single call. -/
theorem callThen {first : Parse α bound} {call : Call}
    {next : α → (rest : List Token) → rest.length ≤ bound → Parse β rest.length}
    {more : α → List Token → List Call} (hfirst : Meets outside tokens [call] spare first)
    (h : Rules finish outside inside)
    (hnext : ∀ value rest hrest, Meets outside rest (more value rest) spare'
      (next value rest hrest)) (hspare : 0 ≤ spare' := by decide) :
    Meets outside tokens (call :: Parse.onward first more) (spare + spare') (first.andThen next) :=
  hfirst.andThen h hnext hspare

/-- `andThen` behind a reading that makes no calls, such as `expect`. -/
theorem onward {first : Parse α bound}
    {next : α → (rest : List Token) → rest.length ≤ bound → Parse β rest.length}
    {more : α → List Token → List Call} (hfirst : Meets outside tokens [] 0 first)
    (h : Rules finish outside inside)
    (hnext : ∀ value rest hrest, Meets outside rest (more value rest) spare
      (next value rest hrest)) (hspare : 0 ≤ spare := by decide) :
    Meets outside tokens (Parse.onward first more) spare (first.andThen next) :=
  (hfirst.andThen h hnext hspare).spared h (Int.le_of_eq (Int.zero_add spare))

/-- `andThen` in front of a reading that makes no calls. -/
theorem last {first : Parse α bound}
    {next : α → (rest : List Token) → rest.length ≤ bound → Parse β rest.length}
    (hfirst : Meets outside tokens calls spare first) (h : Rules finish outside inside)
    (hnext : ∀ value rest hrest, Meets outside rest [] 0 (next value rest hrest)) :
    Meets outside tokens calls spare (first.andThen next) := by
  have hnil : Parse.onward first (fun _ _ => []) = [] := by
    rw [Parse.onward]
    split <;> rfl
  have hlast : Meets outside tokens (calls ++ Parse.onward first fun _ _ => []) (spare + 0)
      (first.andThen next) := hfirst.andThen h hnext
  rwa [hnil, List.append_nil, Int.add_zero] at hlast

end Meets

theorem accept_meets (h : Rules finish outside inside) (value : α)
    (hbound : tokens.length ≤ bound) : Meets outside tokens [] 0 (accept value tokens hbound) :=
  h.still tokens

/-- A token that is taken by `accept`, where nothing else is done. -/
theorem taken_meets (h : Rules finish outside inside) (hkind : token.kind.isBrace = false)
    (value : α) (hbound : tokens.length ≤ bound) :
    Meets outside (token :: tokens) [] 0 (accept value tokens hbound) :=
  ((accept_meets h value hbound).take h hkind).spared h (by decide)

theorem dropSemicolon_meets (h : Rules finish outside inside) (value : α)
    (hbound : (dropSemicolon tokens).length ≤ bound) :
    Meets outside tokens [] 0 (accept value (dropSemicolon tokens) hbound) := by
  show outside tokens [] 0 true (dropSemicolon tokens) []
  rw [dropSemicolon.eq_def]
  split
  · exact h.still []
  · split
    · next hkind => exact taken_meets h (by rw [hkind]; rfl) value (Nat.le_refl _)
    · exact h.still _

theorem expect_meets (h : Rules finish outside inside) {kind : Kind} (hkind : kind.isBrace = false)
    (tokens : List Token) : Meets outside tokens [] 0 (expect finish kind tokens) := by
  rw [expect.eq_def]
  split
  · exact h.missed kind []
  · split
    · next hfound => exact taken_meets h (hfound ▸ hkind) _ _
    · exact h.missed kind (_ :: _)

/-- Reading on behind an opening brace that `expect` asks for: what is done starts with the
brace. -/
theorem expect_brace_meets (h : Rules finish outside inside)
    {next : Token → (rest : List Token) → Parse β rest.length} {more : List Token → List Call}
    (hnext : ∀ brace body, body.length < tokens.length → brace.kind = .openBrace →
      Meets outside (brace :: body) (more body) spare (next brace body))
    (hspare : spare ≤ 0 := by decide) :
    Meets outside tokens (onward (expect finish .openBrace tokens) fun _ rest => more rest) 0
      ((expect finish .openBrace tokens).andThen fun brace rest _ => next brace rest) := by
  cases tokens with
  | nil => exact h.missed .openBrace []
  | cons brace body =>
    rw [expect]
    split
    · next hbrace =>
      exact (hnext brace body (Nat.lt_succ_self _) hbrace).spared h hspare
    · exact h.missed .openBrace (brace :: body)

theorem number_meets (h : Rules finish outside inside) (hkind : token.kind = .int)
    (tokens : List Token) : Meets outside (token :: tokens) [] (-8) (number token tokens) := by
  rw [number]
  split
  · exact (accept_meets h _ _).take h (by rw [hkind]; rfl)
  · exact h.tooLarge token tokens hkind

theorem moreParams_meets (h : Rules finish outside inside) (tokens : List Token) :
    Meets outside tokens ((Call.moreParams tokens).callees finish) 0
      (moreParams finish tokens) := by
  -- only behind a comma are more parameters asked for
  have hnone {token : Token} {rest : List Token} (hcomma : token.kind ≠ .comma) :
      (Call.moreParams (token :: rest)).callees finish = [] := by
    cases rest with
    | nil => rfl
    | cons name rest => exact if_neg fun h => hcomma h.1
  fun_induction moreParams finish tokens with
  | case1 => exact h.missed .closeParen []
  | case2 token hcomma =>
    have hmissed : Meets outside [] [] 0 (fail _ _ [] : Parse (List Ident) 1) := h.missed .ident []
    exact (hmissed.take h (by rw [hcomma]; rfl)).spared h (by decide)
  | case3 token hcomma name rest hname ih =>
    rw [Call.callees, if_pos ⟨hcomma, hname⟩]
    have hnames : Meets outside (token :: name :: rest) [.moreParams rest] 0
        (moreParams finish rest) :=
      (((ih.called h (List.suffix_refl rest)).take h (by rw [hname]; rfl)).take h
        (by rw [hcomma]; rfl)).spared h (by decide)
    exact Meets.last hnames h fun _ _ _ => accept_meets h _ _
  | case4 token hcomma name rest hname =>
    rw [Call.callees, if_neg fun h => hname h.2]
    have hmissed : Meets outside (name :: rest) [] 0
        (fail _ _ (name :: rest) : Parse (List Ident) (rest.length + 1 + 1)) :=
      h.missed .ident (name :: rest)
    exact (hmissed.take h (by rw [hcomma]; rfl)).spared h (by decide)
  | case5 token rest hcomma hclose =>
    rw [hnone hcomma]
    exact taken_meets h (by rw [hclose]; rfl) _ _
  | case6 token rest hcomma hclose =>
    rw [hnone hcomma]
    exact h.missed .closeParen (token :: rest)

theorem params_meets (h : Rules finish outside inside) (tokens : List Token) :
    Meets outside tokens ((Call.params tokens).callees finish) 0 (params finish tokens) := by
  cases tokens with
  | nil => exact h.missed .ident []
  | cons token rest =>
    rw [params, Call.callees]
    split
    · next hclose => exact taken_meets h (by rw [hclose]; rfl) _ _
    · split
      · next hname =>
        have hnames : Meets outside (token :: rest) [.moreParams rest] 0 (moreParams finish rest) :=
          (((moreParams_meets h rest).called h (List.suffix_refl rest)).take h
            (by rw [hname]; rfl)).spared h (by decide)
        exact Meets.last hnames h fun _ _ _ => accept_meets h _ _
      · exact h.missed .ident (token :: rest)

mutual

/-- **What the moves keep, every statement keeps.**  The walk over the parser's functions is this
one: `stmt_meets`, `block_meets` and the theorems up to `moreArgs_meets` take one case for each
branch of a function, and `Rules` says what is asked of it. -/
theorem stmt_meets (h : Rules finish outside inside) (token : Token) (tokens : List Token) :
    Meets outside (token :: tokens) ((Call.stmt token tokens).callees finish) (-2)
      (stmt finish token tokens) := by
  rw [stmt.eq_def]
  split
  · next hkind =>
    -- a binding
    rw [Call.callees, hkind]
    exact (((expect_meets h rfl tokens).onward h fun _ rest _ =>
      (expect_meets h rfl rest).onward h fun _ rest _ =>
      ((nextExpr_meets h .lowest rest).called h (List.suffix_refl rest)).last h fun _ _ _ =>
      dropSemicolon_meets h _ _).take h (by rw [hkind]; rfl)).spared h (by decide)
  · next hkind =>
    -- a return
    rw [Call.callees, hkind]
    exact ((((nextExpr_meets h .lowest tokens).called h (List.suffix_refl tokens)).last h
      fun _ _ _ => dropSemicolon_meets h _ _).take h (by rw [hkind]; rfl)).spared h (by decide)
  · have hexpr : (Call.stmt token tokens).callees finish = [.expr .lowest token tokens] := by
      rw [Call.callees]
      split <;> first | rfl | contradiction
    rw [hexpr]
    exact ((expr_meets h .lowest token tokens).called h (List.suffix_cons token tokens)).last h
      fun _ _ _ => dropSemicolon_meets h _ _
termination_by 5 * tokens.length + 4
decreasing_by all_goals omega

/-- What the moves keep inside a block, every `block` keeps; its statements keep the account
`outside`. -/
theorem block_meets (h : Rules finish outside inside) (tokens : List Token) :
    Meets inside tokens ((Call.block tokens).callees finish) 0 (block finish tokens) := by
  cases tokens with
  | nil =>
    rw [block]
    exact h.unclosed
  | cons token rest =>
    rw [block, Call.callees]
    split
    · next hclose => exact h.closed rest hclose
    · next hclose =>
      -- whether there is a value depends on what follows the statement only
      have hmore := block_meets h (stmt finish token rest).rest
      show inside (token :: rest) _ 0
        ((block finish (stmt finish token rest).rest).result.map _).isSome _ _
      rw [Option.isSome_map]
      exact h.row hclose (stmt_meets h token rest) hmore
termination_by 5 * tokens.length
decreasing_by
  · have := (stmt finish token rest).length_le
    simp only [List.length_cons]
    omega
  · simp only [List.length_cons]
    omega

theorem nextExpr_meets (h : Rules finish outside inside) (floor : Precedence)
    (tokens : List Token) :
    Meets outside tokens ((Call.nextExpr floor tokens).callees finish) 0
      (nextExpr finish floor tokens) := by
  cases tokens with
  | nil =>
    rw [nextExpr]
    exact h.refusedEnd
  | cons token rest =>
    rw [nextExpr, Call.callees]
    exact ((expr_meets h floor token rest).called h (List.suffix_cons token rest)).spared h
      (by decide)
termination_by 5 * tokens.length
decreasing_by all_goals (simp only [List.length_cons]; omega)

theorem expr_meets (h : Rules finish outside inside) (floor : Precedence) (token : Token)
    (tokens : List Token) :
    Meets outside (token :: tokens) ((Call.expr floor token tokens).callees finish) (-3)
      (expr finish floor token tokens) := by
  rw [expr, Call.callees]
  exact ((operand_meets h token tokens).called h (List.suffix_cons token tokens)).callThen h
    fun left rest _ => (climb_meets h floor left rest).called h (List.suffix_refl rest)
termination_by 5 * tokens.length + 3
decreasing_by all_goals omega

theorem operand_meets (h : Rules finish outside inside) (token : Token) (tokens : List Token) :
    Meets outside (token :: tokens) ((Call.operand token tokens).callees finish) (-5)
      (operand finish token tokens) := by
  rw [operand.eq_def]
  split
  case h_11 =>
    -- no expression starts with the token
    have hnone : (Call.operand token tokens).callees finish = [] := by
      rw [Call.callees]
      split <;> first | rfl | contradiction
    rw [hnone]
    exact h.spared (by decide) (h.refused token tokens)
  all_goals
    rename_i hkind
    rw [Call.callees, hkind]
  case h_2 => exact (number_meets h hkind tokens).spared h (by decide)
  all_goals
    have hbrace : token.kind.isBrace = false := by rw [hkind]; rfl
  -- a name, a text and the two truth values
  · exact ((accept_meets h _ _).take h hbrace).spared h (by decide)
  · exact ((accept_meets h _ _).take h hbrace).spared h (by decide)
  · exact ((accept_meets h _ _).take h hbrace).spared h (by decide)
  · exact ((accept_meets h _ _).take h hbrace).spared h (by decide)
  · exact ((((nextExpr_meets h .unary tokens).called h (List.suffix_refl tokens)).last h
      fun _ _ _ => accept_meets h _ _).take h hbrace).spared h (by decide)
  · exact ((((nextExpr_meets h .unary tokens).called h (List.suffix_refl tokens)).last h
      fun _ _ _ => accept_meets h _ _).take h hbrace).spared h (by decide)
  · exact ((((nextExpr_meets h .lowest tokens).called h (List.suffix_refl tokens)).last h
      fun _ rest _ => (expect_meets h rfl rest).last h fun _ _ _ =>
      accept_meets h _ _).take h hbrace).spared h (by decide)
  -- a choice and a function, whose blocks pay for themselves by their opening braces
  · exact (((expect_meets h rfl tokens).onward h fun _ rest _ =>
      ((nextExpr_meets h .lowest rest).called h (List.suffix_refl rest)).callThen h fun _ rest _ =>
      (expect_meets h rfl rest).onward h fun _ _ _ =>
      expect_brace_meets h fun brace body _ hopening =>
      ((block_meets h body).braced h hopening).callThen h fun _ rest _ =>
      ((alternative_meets h rest).called h (List.suffix_refl rest)).last h fun _ _ _ =>
      accept_meets h _ _).take h hbrace).spared h (by decide)
  · exact (((expect_meets h rfl tokens).onward h fun _ rest _ =>
      ((params_meets h rest).called h (List.suffix_refl rest)).callThen h fun _ _ _ =>
      expect_brace_meets h fun brace body _ hopening =>
      ((block_meets h body).braced h hopening).last h fun _ _ _ =>
      accept_meets h _ _).take h hbrace).spared h (by decide)
termination_by 5 * tokens.length + 2
decreasing_by all_goals omega

theorem alternative_meets (h : Rules finish outside inside) (tokens : List Token) :
    Meets outside tokens ((Call.alternative tokens).callees finish) 0
      (alternative finish tokens) := by
  cases tokens with
  | nil =>
    rw [alternative]
    exact h.still []
  | cons token rest =>
    rw [alternative, Call.callees]
    split
    · next helse =>
      exact ((expect_brace_meets h fun brace body _ hopening =>
        ((block_meets h body).braced h hopening).last h fun _ _ _ =>
        accept_meets h _ _).take h (by rw [helse]; rfl)).spared h (by decide)
    · exact h.still (token :: rest)
termination_by 5 * tokens.length + 1
decreasing_by all_goals (simp only [List.length_cons]; omega)

theorem climb_meets (h : Rules finish outside inside) (floor : Precedence) (left : Node)
    (tokens : List Token) :
    Meets outside tokens ((Call.climb floor left tokens).callees finish) 0
      (climb finish floor left tokens) := by
  cases tokens with
  | nil =>
    rw [climb]
    exact h.still []
  | cons token rest =>
    rw [climb, Call.callees]
    split
    · next hrank =>
      -- a brace binds nothing that stands before it
      have hkind : token.kind.isBrace = false := by
        cases hcase : token.kind
        case openBrace | closeBrace => simp [hcase, Kind.precedence, Precedence.rank] at hrank
        all_goals rfl
      split
      · exact ((((args_meets h rest).called h (List.suffix_refl rest)).callThen h
          fun _ rest _ => (climb_meets h floor _ rest).called h (List.suffix_refl rest)).take h
          hkind).spared h (by decide)
      · exact ((((nextExpr_meets h _ rest).called h (List.suffix_refl rest)).callThen h
          fun _ rest _ => (climb_meets h floor _ rest).called h (List.suffix_refl rest)).take h
          hkind).spared h (by decide)
    · exact h.still (token :: rest)
termination_by 5 * tokens.length + 1
decreasing_by all_goals (simp only [List.length_cons]; omega)

theorem args_meets (h : Rules finish outside inside) (tokens : List Token) :
    Meets outside tokens ((Call.args tokens).callees finish) 0 (args finish tokens) := by
  cases tokens with
  | nil =>
    rw [args]
    exact h.refusedEnd
  | cons token rest =>
    rw [args, Call.callees]
    split
    · next hclose => exact taken_meets h (by rw [hclose]; rfl) _ _
    · exact (((expr_meets h .lowest token rest).called h (List.suffix_cons token rest)).callThen h
        fun _ rest _ => ((moreArgs_meets h rest).called h (List.suffix_refl rest)).last h
        fun _ _ _ => accept_meets h _ _).spared h (by decide)
termination_by 5 * tokens.length
decreasing_by all_goals (simp only [List.length_cons]; omega)

theorem moreArgs_meets (h : Rules finish outside inside) (tokens : List Token) :
    Meets outside tokens ((Call.moreArgs tokens).callees finish) 0 (moreArgs finish tokens) := by
  cases tokens with
  | nil =>
    rw [moreArgs]
    exact h.missed .closeParen []
  | cons token rest =>
    rw [moreArgs, Call.callees]
    split
    · next hcomma =>
      exact ((((nextExpr_meets h .lowest rest).called h (List.suffix_refl rest)).callThen h
        fun _ rest _ => ((moreArgs_meets h rest).called h (List.suffix_refl rest)).last h
        fun _ _ _ => accept_meets h _ _).take h (by rw [hcomma]; rfl)).spared h (by decide)
    · split
      · next hclose => exact taken_meets h (by rw [hclose]; rfl) _ _
      · exact h.missed .closeParen (token :: rest)
termination_by 5 * tokens.length
decreasing_by all_goals (simp only [List.length_cons]; omega)

end

end Parse

end TreeWalk
