import TreeWalk.Proofs.Grammar

/-!
# Separated derivations are unique

Tokens have at most one separated derivation.  The proof reads two derivations of the same tokens
from the left at once.  Whether an optional part is there always shows in the next token, provided
that what stands behind a derivation cannot continue it (`Phrase.EndsBefore`); with that provision
two derivations that spell the start of one and the same text are equal, and so is what they leave
of it.

## Main definitions

* `Stops` — the next token binds too loosely to continue an expression.
* `Phrase.EndsBefore` — what stands behind a derivation cannot continue it.
* `Phrase.Determined` — a derivation is determined by the tokens that it spells.

## Main results

* `Phrase.determined` — **separated derivations of the start of one text are equal.**
* `Phrase.eq_of_tokens_eq` — a program has at most one separated derivation.
-/

namespace TreeWalk

namespace Grammar

/-! ### What can continue an expression -/

/-- The next token, if there is one, binds less tightly than `rank` and is no `else`. -/
def Stops (rank : Nat) : List Token → Prop
  | [] => True
  | token :: _ => token.kind.precedence.rank < rank ∧ token.kind ≠ .elseWord

@[simp] theorem stops_nil (rank : Nat) : Stops rank [] := trivial

@[simp] theorem stops_cons (rank : Nat) (token : Token) (rest : List Token) :
    Stops rank (token :: rest) ↔ token.kind.precedence.rank < rank ∧ token.kind ≠ .elseWord :=
  Iff.rfl

theorem Stops.mono {low high : Nat} {tokens : List Token} (h : Stops low tokens)
    (hle : low ≤ high) : Stops high tokens := by
  cases tokens with
  | nil => trivial
  | cons token rest => exact ⟨Nat.lt_of_lt_of_le h.1 hle, h.2⟩

namespace Phrase

/-- What stands behind a derivation, the tokens `more`, cannot continue it. -/
def EndsBefore : {s : Symbol} → Phrase s → List Token → Prop
  | .stmts, _, more => ∀ token ∈ more.head?, token.kind = .closeBrace
  | .stmt, d, more => d.closed ∨ Stops 1 more ∧ ∀ token ∈ more.head?, token.kind ≠ .semicolon
  | .clause, _, more => Stops 1 more
  | .block, _, _ => True
  | .expr level, _, more | .chain level, _, more => Stops level.rank more
  | .primary, _, more | .calls, _, more => Stops 6 more
  | .atom, _, more | .alternative, _, more => Stops 7 more
  | .args, _, more | .moreArgs, _, more => ∀ token ∈ more.head?, token.kind = .closeParen

/-- Behind an operand of a `level` stand the operators of the level, which do not continue it:
`Stops` holds at the rank of the operand. -/
theorem stops_chain {level : Level} (hlevel : level ≠ .unary) (d : Phrase (.chain level))
    {more : List Token} (h : Stops level.rank more) :
    Stops level.operand.rank (d.tokens ++ more) := by
  have hlt : level.rank < level.operand.rank := by
    rw [Level.rank_operand hlevel]
    exact Nat.lt_succ_self _
  cases d with
  | chainEnd => exact h.mono (Nat.le_of_lt hlt)
  | chainNext op right rest =>
    have hop := Level.rank_of_mem_operators op.2
    refine ⟨hop ▸ hlt, fun helse => ?_⟩
    rw [helse] at hop
    cases level <;> simp [Level.rank, Kind.precedence, Precedence.rank] at hop

/-- Behind an operand stand calls, which do not continue it: the parentheses of a call bind at rank
6. -/
theorem stops_calls (d : Phrase .calls) {more : List Token} (h : Stops 6 more) :
    Stops 7 (d.tokens ++ more) := by
  cases d with
  | noCall => exact h.mono (by decide)
  | nextCall opening args closing rest =>
    have hkind : opening.1.kind = .openParen := by simpa using opening.2
    simp [tokens, hkind, Kind.precedence, Precedence.rank]

/-- Behind an argument stands a comma or the closing parenthesis, and `Stops` holds at both. -/
theorem stops_moreArgs (d : Phrase .moreArgs) {more : List Token}
    (h : ∀ token ∈ more.head?, token.kind = .closeParen) : Stops 1 (d.tokens ++ more) := by
  cases d with
  | lastArg =>
    cases more with
    | nil => trivial
    | cons token rest =>
      have hkind : token.kind = .closeParen := h token rfl
      simp [tokens, hkind, Kind.precedence, Precedence.rank]
  | nextArg comma value rest =>
    have hkind : comma.1.kind = .comma := by simpa using comma.2
    simp [tokens, hkind, Kind.precedence, Precedence.rank]

/-- Behind a statement that no semicolon closes, what starts the next one does not continue it, if
both are `Separated`. -/
theorem endsBefore_of_next {head : Phrase .stmt} {tail : Phrase .stmts} {more : List Token}
    (hsep : (next head tail).Separated) (h : ∀ token ∈ more.head?, token.kind = .closeBrace) :
    head.EndsBefore (tail.tokens ++ more) := by
  rcases hsep.2.2 with hclosed | hnext
  · exact .inl hclosed
  · refine .inr ?_
    cases tail with
    | done =>
      cases more with
      | nil => simp [tokens]
      | cons token rest =>
        have hkind : token.kind = .closeBrace := h token rfl
        simp [tokens, hkind, Kind.precedence, Precedence.rank]
    | next second rest =>
      obtain ⟨first, others, htokens, hfirst⟩ := second.exists_first (by decide)
      have hstart := hnext first (by simp [tokens, htokens])
      simp only [Symbol.starts, stmtStarts, exprStarts, operandStarts, List.mem_cons,
        List.not_mem_nil, or_false, not_or] at hfirst hstart
      simp only [tokens, htokens, List.cons_append, stops_cons, List.head?_cons,
        Option.mem_some_iff, forall_eq']
      rcases hfirst with hk | hk | hk | hk | hk | hk | hk | hk | hk | hk | hk | hk <;>
        simp [hk, Kind.precedence, Precedence.rank] at hstart ⊢

end Phrase

/-! ### Reading two derivations at once -/

theorem Terminal.eq_of_cons_eq {kinds : List Kind} {token token' : Terminal kinds}
    {rest rest' : List Token} (h : token.1 :: rest = token'.1 :: rest') :
    token = token' ∧ rest = rest' := by
  rw [List.cons.injEq] at h
  exact ⟨Subtype.ext h.1, h.2⟩

/-- The kind of the next token, if that is `closing`. -/
theorem Terminal.kind_of_mem_head? {kind : Kind} (closing : Terminal [kind]) (rest : List Token) :
    ∀ token ∈ (closing.1 :: rest).head?, token.kind = kind := by
  intro token htoken
  rw [List.head?_cons, Option.mem_some_iff] at htoken
  rw [← htoken, closing.kind_eq]

/-- A `Terminal` of another kind starts another text. -/
theorem Terminal.cons_ne_cons {kind kind' : Kind} (token : Terminal [kind])
    (token' : Terminal [kind']) (hne : kind ≠ kind') {rest rest' : List Token} :
    token.1 :: rest ≠ token'.1 :: rest' := by
  intro h
  exact hne (token.kind_eq.symm.trans (token'.kind_of_cons_eq h))

/-- A token that binds less tightly than `rank` ends an expression there. -/
theorem Terminal.stops {kind : Kind} (token : Terminal [kind]) {rank : Nat}
    (hrank : kind.precedence.rank < rank) (helse : kind ≠ .elseWord) {rest : List Token} :
    Stops rank (token.1 :: rest) := by
  rw [stops_cons, token.kind_eq]
  exact ⟨hrank, helse⟩

/-- A text with `Stops` at the rank of a `level` starts with no operator of the level. -/
theorem Terminal.ne_cons {level : Level} (op : Terminal level.operators) {rest more : List Token}
    (h : Stops level.rank more) : more ≠ op.1 :: rest := by
  rintro rfl
  exact absurd (Level.rank_of_mem_operators op.2) (Nat.ne_of_lt h.1)

/-- A `level` with operators is not `unary`. -/
theorem Terminal.ne_unary {level : Level} (op : Terminal level.operators) : level ≠ .unary := by
  rintro rfl
  exact absurd op.2 List.not_mem_nil

/-- A text with `Stops 6` starts with no opening parenthesis. -/
theorem Terminal.ne_call (opening : Terminal [.openParen]) {rest more : List Token}
    (h : Stops 6 more) : more ≠ opening.1 :: rest := by
  rintro rfl
  rw [stops_cons, opening.kind_eq] at h
  exact absurd h.1 (by decide)

/-- By induction on `params`: whether there is a further parameter shows in its comma, so the tokens
of parameters and what stands behind them determine both. -/
theorem Params.eq_of_flatMap_append_eq :
    ∀ {params params' : List (Terminal [.comma] × Terminal [.ident])}
      {closing closing' : Terminal [.closeParen]} {rest rest' : List Token},
      (params.flatMap fun (comma, name) => [comma.1, name.1]) ++ closing.1 :: rest
        = (params'.flatMap fun (comma, name) => [comma.1, name.1]) ++ closing'.1 :: rest' →
      params = params' ∧ closing.1 :: rest = closing'.1 :: rest' := by
  intro params
  induction params with
  | nil =>
    intro params' closing closing' rest rest' h
    cases params' with
    | nil => exact ⟨rfl, h⟩
    | cons param params' => exact absurd h (closing.cons_ne_cons param.1 (by decide))
  | cons param params ih =>
    intro params' closing closing' rest rest' h
    cases params' with
    | nil => exact absurd h (param.1.cons_ne_cons closing' (by decide))
    | cons param' params' =>
      obtain ⟨hcomma, h⟩ := Terminal.eq_of_cons_eq h
      obtain ⟨hname, h⟩ := Terminal.eq_of_cons_eq h
      obtain ⟨rfl, hrest⟩ := ih h
      exact ⟨by rw [Prod.ext hcomma hname], hrest⟩

theorem Params.eq_of_tokens_append_eq {params params' : Params}
    {closing closing' : Terminal [.closeParen]} {rest rest' : List Token}
    (h : params.tokens ++ closing.1 :: rest = params'.tokens ++ closing'.1 :: rest') :
    params = params' ∧ closing = closing' ∧ rest = rest' := by
  have hmore : params = params' ∧ closing.1 :: rest = closing'.1 :: rest' := by
    cases params with
    | none =>
      cases params' with
      | none => exact ⟨rfl, h⟩
      | some first more => exact absurd h (closing.cons_ne_cons first (by decide))
    | some first more =>
      cases params' with
      | none => exact absurd h (first.cons_ne_cons closing' (by decide))
      | some first' more' =>
        obtain ⟨rfl, htail⟩ := Terminal.eq_of_cons_eq h
        obtain ⟨rfl, hrest⟩ := eq_of_flatMap_append_eq htail
        exact ⟨rfl, hrest⟩
  exact ⟨hmore.1, Terminal.eq_of_cons_eq hmore.2⟩

namespace Phrase

/-- Behind a `clause` stands the semicolon `stop`, or what ends the statement. -/
theorem stops_stop {clause : Phrase .clause} {stop : Option (Terminal [.semicolon])}
    {more : List Token} (h : (stmt clause stop).EndsBefore more) :
    Stops 1 ((stop.map (·.1)).toList ++ more) := by
  cases stop with
  | none =>
    rcases h with hclosed | hstops
    · exact absurd hclosed (by simp [closed])
    · exact hstops.1
  | some token => exact token.stops (by decide) (by decide)

/-- A closing parenthesis ends an expression, as `EndsBefore` asks. -/
theorem endsBefore_closing (d : Phrase (.expr .equals)) (closing : Terminal [.closeParen])
    {rest : List Token} : d.EndsBefore (closing.1 :: rest) := by
  change Stops 1 (closing.1 :: rest)
  exact closing.stops (by decide) (by decide)

/-- A semicolon belongs to the statement in front of it: what stands behind two clauses determines
`stop` and what is left. -/
theorem stop_eq_of_append_eq {clause clause' : Phrase .clause}
    {stop stop' : Option (Terminal [.semicolon])} {more more' : List Token}
    (hend : (stmt clause stop).EndsBefore more) (hend' : (stmt clause' stop').EndsBefore more')
    (h : (stop.map (·.1)).toList ++ more = (stop'.map (·.1)).toList ++ more') :
    stop = stop' ∧ more = more' := by
  cases stop with
  | none =>
    cases stop' with
    | none => exact ⟨rfl, h⟩
    | some token' =>
      have hnext := (hend.resolve_left (by simp [closed])).2
      rw [show more = token'.1 :: more' from h] at hnext
      exact absurd token'.kind_eq (hnext token'.1 rfl)
  | some token =>
    cases stop' with
    | none =>
      have hnext := (hend'.resolve_left (by simp [closed])).2
      rw [show more' = token.1 :: more from h.symm] at hnext
      exact absurd token.kind_eq (hnext token.1 rfl)
    | some token' =>
      obtain ⟨htoken, hmore⟩ := Terminal.eq_of_cons_eq h
      exact ⟨by rw [htoken], hmore⟩

/-- The kind of the token that starts an operand of this form. -/
def leadKind : Phrase .atom → Kind
  | ident _ => .ident
  | number .. => .int
  | text _ => .string
  | yesWord _ => .trueWord
  | noWord _ => .falseWord
  | group .. => .openParen
  | ifElse .. => .ifWord
  | function .. => .fnWord

theorem exists_lead (d : Phrase .atom) :
    ∃ first rest, d.tokens = first :: rest ∧ first.kind = d.leadKind := by
  cases d with
  | ident token | number token | text token | yesWord token | noWord token | group token
  | ifElse token | function token => exact ⟨_, _, rfl, token.kind_eq⟩

/-- The first token tells the forms of operands apart: derivations at the start of one text have the
same `leadKind`. -/
theorem leadKind_eq {d d' : Phrase .atom} {more more' : List Token}
    (h : d.tokens ++ more = d'.tokens ++ more') : d.leadKind = d'.leadKind := by
  obtain ⟨first, rest, htokens, hkind⟩ := d.exists_lead
  obtain ⟨first', rest', htokens', hkind'⟩ := d'.exists_lead
  rw [htokens, htokens', List.cons_append, List.cons_append, List.cons.injEq] at h
  rw [← hkind, ← hkind', h.1]

/-- The operands of one token, numbers apart, by their `leadKind`. -/
theorem exists_of_leadKind (d : Phrase .atom) :
    (d.leadKind = .ident → ∃ token, d = ident token) ∧
      (d.leadKind = .string → ∃ token, d = text token) ∧
      (d.leadKind = .trueWord → ∃ token, d = yesWord token) ∧
      (d.leadKind = .falseWord → ∃ token, d = noWord token) := by
  cases d <;> simp [leadKind]

/-- A derivation that cannot be empty does not start with a token outside `Symbol.starts`. -/
theorem tokens_append_ne {s : Symbol} (d : Phrase s) (hs : s.starts ≠ []) {kind : Kind}
    (hkind : kind ∉ s.starts) {rest more : List Token}
    (hmore : ∀ token ∈ more.head?, token.kind = kind) : d.tokens ++ rest ≠ more := by
  intro h
  obtain ⟨first, others, htokens, hfirst⟩ := d.exists_first hs
  have hhead := hmore first (by rw [← h, htokens]; rfl)
  exact hkind (hhead ▸ hfirst)

/-- An operator `op` in front shows in the first token: no `primary` starts with one. -/
theorem prefixed_tokens_ne (op : Terminal [.bang, .minus]) (d : Phrase .primary)
    {rest more : List Token} : op.1 :: rest ≠ d.tokens ++ more := by
  intro h
  obtain ⟨first, others, htokens, hfirst⟩ := d.exists_first (by decide)
  rw [htokens, List.cons_append, List.cons.injEq] at h
  have hop := op.2
  simp only [h.1, List.mem_cons, List.not_mem_nil, or_false] at hop
  rcases hop with hkind | hkind <;> rw [hkind] at hfirst <;> exact absurd hfirst (by decide)

/-- The words `let` and `return` start no expression. -/
theorem word_tokens_ne {kind : Kind} (hkind : kind ∉ exprStarts) (word : Terminal [kind])
    (d : Phrase (.expr .equals)) {rest more : List Token} : word.1 :: rest ≠ d.tokens ++ more :=
  (d.tokens_append_ne (by simp [Symbol.starts, exprStarts]) hkind
    (word.kind_of_mem_head? rest)).symm

/-! ### One rule of the grammar at a time -/

/-- The tokens of `d` at the start of a text determine it among the `Separated` derivations of its
symbol, and what stands behind it too, if `EndsBefore` holds on both sides. -/
def Determined {s : Symbol} (d : Phrase s) : Prop :=
  ∀ (d' : Phrase s) ⦃more more' : List Token⦄, d'.Separated → d.EndsBefore more →
    d'.EndsBefore more' → d.tokens ++ more = d'.tokens ++ more' → d = d' ∧ more = more'

theorem determined_done : Determined done := by
  intro d' more more' hsep' hend hend' h
  cases d' with
  | done => exact ⟨rfl, h⟩
  | next head tail =>
    simp only [tokens, List.append_assoc] at h
    exact absurd h.symm (head.tokens_append_ne (by decide) (by decide) hend)

/-- A statement and those behind it: the only rule for which the derivations have to be
`Separated`. -/
theorem determined_next {head : Phrase .stmt} {tail : Phrase .stmts}
    (hsep : (next head tail).Separated) (ihHead : head.Determined) (ihTail : tail.Determined) :
    (next head tail).Determined := by
  intro d' more more' hsep' hend hend' h
  cases d' with
  | done =>
    simp only [tokens, List.append_assoc] at h
    exact absurd h (head.tokens_append_ne (by decide) (by decide) hend')
  | next head' tail' =>
    simp only [tokens, List.append_assoc] at h
    obtain ⟨hhead, h⟩ := ihHead head' hsep'.1 (endsBefore_of_next hsep hend)
      (endsBefore_of_next hsep' hend') h
    obtain ⟨htail, hmore⟩ := ihTail tail' hsep'.2.1 hend hend' h
    exact ⟨by rw [hhead, htail], hmore⟩

theorem determined_stmt {clause : Phrase .clause} {stop : Option (Terminal [.semicolon])}
    (ih : clause.Determined) : (stmt clause stop).Determined := by
  intro d' more more' hsep' hend hend' h
  cases d' with
  | stmt clause' stop' =>
    simp only [tokens, List.append_assoc] at h
    obtain ⟨hclause, h⟩ := ih clause' hsep' (stops_stop hend) (stops_stop hend') h
    obtain ⟨hstop, hmore⟩ := stop_eq_of_append_eq hend hend' h
    exact ⟨by rw [hclause, hstop], hmore⟩

theorem determined_letClause {word : Terminal [.letWord]} {name : Terminal [.ident]}
    {sign : Terminal [.equal]} {value : Phrase (.expr .equals)} (ih : value.Determined) :
    (letClause word name sign value).Determined := by
  intro d' more more' hsep' hend hend' h
  cases d' with
  | letClause word' name' sign' value' =>
    obtain ⟨hword, h⟩ := Terminal.eq_of_cons_eq h
    obtain ⟨hname, h⟩ := Terminal.eq_of_cons_eq h
    obtain ⟨hsign, h⟩ := Terminal.eq_of_cons_eq h
    obtain ⟨hvalue, hmore⟩ := ih value' hsep' hend hend' h
    exact ⟨by rw [hword, hname, hsign, hvalue], hmore⟩
  | returnClause word' value' => exact absurd h (word.cons_ne_cons word' (by decide))
  | exprClause value' => exact absurd h (word_tokens_ne (by decide) word value')

theorem determined_returnClause {word : Terminal [.returnWord]} {value : Phrase (.expr .equals)}
    (ih : value.Determined) : (returnClause word value).Determined := by
  intro d' more more' hsep' hend hend' h
  cases d' with
  | letClause word' name' sign' value' => exact absurd h (word.cons_ne_cons word' (by decide))
  | returnClause word' value' =>
    obtain ⟨hword, h⟩ := Terminal.eq_of_cons_eq h
    obtain ⟨hvalue, hmore⟩ := ih value' hsep' hend hend' h
    exact ⟨by rw [hword, hvalue], hmore⟩
  | exprClause value' => exact absurd h (word_tokens_ne (by decide) word value')

theorem determined_exprClause {value : Phrase (.expr .equals)} (ih : value.Determined) :
    (exprClause value).Determined := by
  intro d' more more' hsep' hend hend' h
  cases d' with
  | letClause word' name' sign' value' =>
    exact absurd h.symm (word_tokens_ne (by decide) word' value)
  | returnClause word' value' => exact absurd h.symm (word_tokens_ne (by decide) word' value)
  | exprClause value' =>
    obtain ⟨hvalue, hmore⟩ := ih value' hsep' hend hend' h
    exact ⟨by rw [hvalue], hmore⟩

theorem determined_block {opening : Terminal [.openBrace]} {body : Phrase .stmts}
    {closing : Terminal [.closeBrace]} (ih : body.Determined) :
    (block opening body closing).Determined := by
  intro d' more more' hsep' hend hend' h
  cases d' with
  | block opening' body' closing' =>
    simp only [tokens, List.cons_append, List.append_assoc, List.nil_append] at h
    obtain ⟨hopening, h⟩ := Terminal.eq_of_cons_eq h
    obtain ⟨hbody, h⟩ := ih body' hsep' (closing.kind_of_mem_head? _)
      (closing'.kind_of_mem_head? _) h
    obtain ⟨hclosing, hmore⟩ := Terminal.eq_of_cons_eq h
    exact ⟨by rw [hopening, hbody, hclosing], hmore⟩

/-- No `else`: one that follows would belong to the choice, so `EndsBefore` rules it out. -/
theorem determined_noElse : Determined noElse := by
  intro d' more more' hsep' hend hend' h
  cases d' with
  | noElse => exact ⟨rfl, h⟩
  | elseBlock word' body' =>
    simp only [tokens, List.nil_append, List.cons_append] at h
    rw [h] at hend
    exact absurd word'.kind_eq hend.2

theorem determined_elseBlock {word : Terminal [.elseWord]} {body : Phrase .block}
    (ih : body.Determined) : (elseBlock word body).Determined := by
  intro d' more more' hsep' hend hend' h
  cases d' with
  | noElse =>
    simp only [tokens, List.nil_append, List.cons_append] at h
    rw [← h] at hend'
    exact absurd word.kind_eq hend'.2
  | elseBlock word' body' =>
    obtain ⟨hword, h⟩ := Terminal.eq_of_cons_eq h
    obtain ⟨hbody, hmore⟩ := ih body' hsep' trivial trivial h
    exact ⟨by rw [hword, hbody], hmore⟩

/-- An operand of a `level` and the operators behind it: the operand ends where the operators
start. -/
theorem determined_binary {level : Level} {loose : level ≠ .unary}
    {first : Phrase (.expr level.operand)} {chain : Phrase (.chain level)}
    (ihFirst : first.Determined) (ihChain : chain.Determined) :
    (binary loose first chain).Determined := by
  intro d' more more' hsep' hend hend' h
  cases d' with
  | binary loose' first' chain' =>
    simp only [tokens, List.append_assoc] at h
    obtain ⟨hfirst, h⟩ := ihFirst first' hsep'.1 (stops_chain loose chain hend)
      (stops_chain loose chain' hend') h
    obtain ⟨hchain, hmore⟩ := ihChain chain' hsep'.2 hend hend' h
    exact ⟨by rw [hfirst, hchain], hmore⟩
  | prefixed op right => exact absurd rfl loose
  | unprefixed inner => exact absurd rfl loose

theorem determined_chainEnd {level : Level} : (chainEnd : Phrase (.chain level)).Determined := by
  intro d' more more' hsep' hend hend' h
  cases d' with
  | chainEnd => exact ⟨rfl, h⟩
  | chainNext op' right' chain' => exact absurd h (op'.ne_cons hend)

theorem determined_chainNext {level : Level} {op : Terminal level.operators}
    {right : Phrase (.expr level.operand)} {chain : Phrase (.chain level)}
    (ihRight : right.Determined) (ihChain : chain.Determined) :
    (chainNext op right chain).Determined := by
  intro d' more more' hsep' hend hend' h
  cases d' with
  | chainEnd => exact absurd h.symm (op.ne_cons hend')
  | chainNext op' right' chain' =>
    simp only [tokens, List.cons_append, List.append_assoc] at h
    obtain ⟨hop, h⟩ := Terminal.eq_of_cons_eq h
    obtain ⟨hright, h⟩ := ihRight right' hsep'.1 (stops_chain op.ne_unary chain hend)
      (stops_chain op.ne_unary chain' hend') h
    obtain ⟨hchain, hmore⟩ := ihChain chain' hsep'.2 hend hend' h
    exact ⟨by rw [hop, hright, hchain], hmore⟩

theorem determined_prefixed {op : Terminal [.bang, .minus]} {right : Phrase (.expr .unary)}
    (ih : right.Determined) : (prefixed op right).Determined := by
  intro d' more more' hsep' hend hend' h
  cases d' with
  | binary loose first chain => exact absurd rfl loose
  | prefixed op' right' =>
    obtain ⟨hop, h⟩ := Terminal.eq_of_cons_eq h
    obtain ⟨hright, hmore⟩ := ih right' hsep' hend hend' h
    exact ⟨by rw [hop, hright], hmore⟩
  | unprefixed inner' => exact absurd h (prefixed_tokens_ne op inner')

theorem determined_unprefixed {inner : Phrase .primary} (ih : inner.Determined) :
    (unprefixed inner).Determined := by
  intro d' more more' hsep' hend hend' h
  cases d' with
  | binary loose first chain => exact absurd rfl loose
  | prefixed op' right' => exact absurd h.symm (prefixed_tokens_ne op' inner)
  | unprefixed inner' =>
    -- what ends an operand with its prefixes binds less tightly than a call, too
    obtain ⟨hinner, hmore⟩ := ih inner' hsep' (hend.mono (by decide)) (hend'.mono (by decide)) h
    exact ⟨by rw [hinner], hmore⟩

theorem determined_primary {atom : Phrase .atom} {calls : Phrase .calls}
    (ihAtom : atom.Determined) (ihCalls : calls.Determined) : (primary atom calls).Determined := by
  intro d' more more' hsep' hend hend' h
  cases d' with
  | primary atom' calls' =>
    simp only [tokens, List.append_assoc] at h
    obtain ⟨hatom, h⟩ := ihAtom atom' hsep'.1 (stops_calls calls hend) (stops_calls calls' hend') h
    obtain ⟨hcalls, hmore⟩ := ihCalls calls' hsep'.2 hend hend' h
    exact ⟨by rw [hatom, hcalls], hmore⟩

theorem determined_noCall : Determined noCall := by
  intro d' more more' hsep' hend hend' h
  cases d' with
  | noCall => exact ⟨rfl, h⟩
  | nextCall opening' args' closing' calls' => exact absurd h (opening'.ne_call hend)

theorem determined_nextCall {opening : Terminal [.openParen]} {args : Phrase .args}
    {closing : Terminal [.closeParen]} {calls : Phrase .calls} (ihArgs : args.Determined)
    (ihCalls : calls.Determined) : (nextCall opening args closing calls).Determined := by
  intro d' more more' hsep' hend hend' h
  cases d' with
  | noCall => exact absurd h.symm (opening.ne_call hend')
  | nextCall opening' args' closing' calls' =>
    simp only [tokens, List.cons_append, List.append_assoc] at h
    obtain ⟨hopening, h⟩ := Terminal.eq_of_cons_eq h
    obtain ⟨hargs, h⟩ := ihArgs args' hsep'.1 (closing.kind_of_mem_head? _)
      (closing'.kind_of_mem_head? _) h
    obtain ⟨hclosing, h⟩ := Terminal.eq_of_cons_eq h
    obtain ⟨hcalls, hmore⟩ := ihCalls calls' hsep'.2 hend hend' h
    exact ⟨by rw [hopening, hargs, hclosing, hcalls], hmore⟩

/-- An operand of one token, which `make` builds from it: by `hform` its `leadKind` tells it from
every other form. -/
theorem determined_token {kind : Kind} {make : Terminal [kind] → Phrase .atom}
    (htokens : ∀ token, (make token).tokens = [token.1]) (token : Terminal [kind])
    (hform : ∀ d' : Phrase .atom, d'.leadKind = (make token).leadKind →
      ∃ token', d' = make token') : (make token).Determined := by
  intro d' more more' hsep' hend hend' h
  obtain ⟨token', rfl⟩ := hform d' (leadKind_eq h).symm
  rw [htokens, htokens] at h
  obtain ⟨rfl, hmore⟩ := Terminal.eq_of_cons_eq h
  exact ⟨rfl, hmore⟩

/-- A number: the digits determine its value. -/
theorem determined_number {digits : Terminal [.int]} {value : Float}
    (spelled : Number.nearest? (Parse.digitsValue digits.1.lexeme) 1 = some value) :
    (number digits value spelled).Determined := by
  intro d' more more' hsep' hend hend' h
  cases d' with
  | number digits' value' spelled' =>
    obtain ⟨rfl, hmore⟩ := Terminal.eq_of_cons_eq h
    obtain rfl : value = value' := Option.some.inj (spelled.symm.trans spelled')
    exact ⟨rfl, hmore⟩
  | _ => exact absurd (leadKind_eq h) (by simp [leadKind])

theorem determined_group {opening : Terminal [.openParen]} {inner : Phrase (.expr .equals)}
    {closing : Terminal [.closeParen]} (ih : inner.Determined) :
    (group opening inner closing).Determined := by
  intro d' more more' hsep' hend hend' h
  cases d' with
  | group opening' inner' closing' =>
    simp only [tokens, List.cons_append, List.append_assoc, List.nil_append] at h
    obtain ⟨hopening, h⟩ := Terminal.eq_of_cons_eq h
    obtain ⟨hinner, h⟩ := ih inner' hsep' (endsBefore_closing _ closing)
      (endsBefore_closing _ closing') h
    obtain ⟨hclosing, hmore⟩ := Terminal.eq_of_cons_eq h
    exact ⟨by rw [hopening, hinner, hclosing], hmore⟩
  | _ => exact absurd (leadKind_eq h) (by simp [leadKind])

theorem determined_ifElse {word : Terminal [.ifWord]} {opening : Terminal [.openParen]}
    {cond : Phrase (.expr .equals)} {closing : Terminal [.closeParen]} {yes : Phrase .block}
    {no : Phrase .alternative} (ihCond : cond.Determined) (ihYes : yes.Determined)
    (ihNo : no.Determined) : (ifElse word opening cond closing yes no).Determined := by
  intro d' more more' hsep' hend hend' h
  cases d' with
  | ifElse word' opening' cond' closing' yes' no' =>
    simp only [tokens, List.cons_append, List.append_assoc] at h
    obtain ⟨hword, h⟩ := Terminal.eq_of_cons_eq h
    obtain ⟨hopening, h⟩ := Terminal.eq_of_cons_eq h
    obtain ⟨hcond, h⟩ := ihCond cond' hsep'.1 (endsBefore_closing _ closing)
      (endsBefore_closing _ closing') h
    obtain ⟨hclosing, h⟩ := Terminal.eq_of_cons_eq h
    obtain ⟨hyes, h⟩ := ihYes yes' hsep'.2.1 trivial trivial h
    obtain ⟨hno, hmore⟩ := ihNo no' hsep'.2.2 hend hend' h
    exact ⟨by rw [hword, hopening, hcond, hclosing, hyes, hno], hmore⟩
  | _ => exact absurd (leadKind_eq h) (by simp [leadKind])

theorem determined_function {word : Terminal [.fnWord]} {opening : Terminal [.openParen]}
    {params : Params} {closing : Terminal [.closeParen]} {body : Phrase .block}
    (ih : body.Determined) : (function word opening params closing body).Determined := by
  intro d' more more' hsep' hend hend' h
  cases d' with
  | function word' opening' params' closing' body' =>
    simp only [tokens, List.cons_append, List.append_assoc] at h
    obtain ⟨hword, h⟩ := Terminal.eq_of_cons_eq h
    obtain ⟨hopening, h⟩ := Terminal.eq_of_cons_eq h
    obtain ⟨hparams, hclosing, h⟩ := Params.eq_of_tokens_append_eq h
    obtain ⟨hbody, hmore⟩ := ih body' hsep' trivial trivial h
    exact ⟨by rw [hword, hopening, hparams, hclosing, hbody], hmore⟩
  | _ => exact absurd (leadKind_eq h) (by simp [leadKind])

theorem determined_noArgs : Determined noArgs := by
  intro d' more more' hsep' hend hend' h
  cases d' with
  | noArgs => exact ⟨rfl, h⟩
  | someArgs first' args' =>
    simp only [tokens, List.append_assoc] at h
    exact absurd h.symm (first'.tokens_append_ne (by decide) (by decide) hend)

theorem determined_someArgs {first : Phrase (.expr .equals)} {args : Phrase .moreArgs}
    (ihFirst : first.Determined) (ihArgs : args.Determined) :
    (someArgs first args).Determined := by
  intro d' more more' hsep' hend hend' h
  cases d' with
  | noArgs =>
    simp only [tokens, List.append_assoc] at h
    exact absurd h (first.tokens_append_ne (by decide) (by decide) hend')
  | someArgs first' args' =>
    simp only [tokens, List.append_assoc] at h
    obtain ⟨hfirst, h⟩ := ihFirst first' hsep'.1 (stops_moreArgs args hend)
      (stops_moreArgs args' hend') h
    obtain ⟨hargs, hmore⟩ := ihArgs args' hsep'.2 hend hend' h
    exact ⟨by rw [hfirst, hargs], hmore⟩

/-- A comma is no closing parenthesis, which is what `EndsBefore` asks for behind arguments. -/
theorem comma_ne_of_endsBefore {comma : Terminal [.comma]} {rest more : List Token}
    (hend : ∀ token ∈ more.head?, token.kind = .closeParen) : more ≠ comma.1 :: rest := by
  rintro rfl
  have hkind := hend comma.1 rfl
  rw [comma.kind_eq] at hkind
  exact absurd hkind (by decide)

theorem determined_lastArg : Determined lastArg := by
  intro d' more more' hsep' hend hend' h
  cases d' with
  | lastArg => exact ⟨rfl, h⟩
  | nextArg comma' value' args' => exact absurd h (comma_ne_of_endsBefore hend)

theorem determined_nextArg {comma : Terminal [.comma]} {value : Phrase (.expr .equals)}
    {args : Phrase .moreArgs} (ihValue : value.Determined) (ihArgs : args.Determined) :
    (nextArg comma value args).Determined := by
  intro d' more more' hsep' hend hend' h
  cases d' with
  | lastArg => exact absurd h.symm (comma_ne_of_endsBefore hend')
  | nextArg comma' value' args' =>
    simp only [tokens, List.cons_append, List.append_assoc] at h
    obtain ⟨hcomma, h⟩ := Terminal.eq_of_cons_eq h
    obtain ⟨hvalue, h⟩ := ihValue value' hsep'.1 (stops_moreArgs args hend)
      (stops_moreArgs args' hend') h
    obtain ⟨hargs, hmore⟩ := ihArgs args' hsep'.2 hend hend' h
    exact ⟨by rw [hcomma, hvalue, hargs], hmore⟩

/-- **Separated derivations of the start of one text are equal**, and so is what they leave of it:
by induction on `d`, with one of the lemmas above for each rule of the grammar. -/
theorem determined {s : Symbol} (d : Phrase s) (hsep : d.Separated) : d.Determined := by
  induction d with
  | done => exact determined_done
  | next head tail ihHead ihTail =>
    exact determined_next hsep (ihHead hsep.1) (ihTail hsep.2.1)
  | stmt clause stop ih => exact determined_stmt (ih hsep)
  | letClause word name sign value ih => exact determined_letClause (ih hsep)
  | returnClause word value ih => exact determined_returnClause (ih hsep)
  | exprClause value ih => exact determined_exprClause (ih hsep)
  | block opening body closing ih => exact determined_block (ih hsep)
  | noElse => exact determined_noElse
  | elseBlock word body ih => exact determined_elseBlock (ih hsep)
  | binary loose first chain ihFirst ihChain =>
    exact determined_binary (ihFirst hsep.1) (ihChain hsep.2)
  | chainEnd => exact determined_chainEnd
  | chainNext op right chain ihRight ihChain =>
    exact determined_chainNext (ihRight hsep.1) (ihChain hsep.2)
  | prefixed op right ih => exact determined_prefixed (ih hsep)
  | unprefixed inner ih => exact determined_unprefixed (ih hsep)
  | primary atom calls ihAtom ihCalls =>
    exact determined_primary (ihAtom hsep.1) (ihCalls hsep.2)
  | noCall => exact determined_noCall
  | nextCall opening args closing calls ihArgs ihCalls =>
    exact determined_nextCall (ihArgs hsep.1) (ihCalls hsep.2)
  | ident token =>
    exact determined_token (fun _ => rfl) token fun d' => d'.exists_of_leadKind.1
  | number digits value spelled => exact determined_number spelled
  | text token =>
    exact determined_token (fun _ => rfl) token fun d' => d'.exists_of_leadKind.2.1
  | yesWord word =>
    exact determined_token (fun _ => rfl) word fun d' => d'.exists_of_leadKind.2.2.1
  | noWord word =>
    exact determined_token (fun _ => rfl) word fun d' => d'.exists_of_leadKind.2.2.2
  | group opening inner closing ih => exact determined_group (ih hsep)
  | ifElse word opening cond closing yes no ihCond ihYes ihNo =>
    exact determined_ifElse (ihCond hsep.1) (ihYes hsep.2.1) (ihNo hsep.2.2)
  | function word opening params closing body ih => exact determined_function (ih hsep)
  | noArgs => exact determined_noArgs
  | someArgs first args ihFirst ihArgs =>
    exact determined_someArgs (ihFirst hsep.1) (ihArgs hsep.2)
  | lastArg => exact determined_lastArg
  | nextArg comma value args ihValue ihArgs =>
    exact determined_nextArg (ihValue hsep.1) (ihArgs hsep.2)

/-- A program has at most one `Separated` derivation. -/
theorem eq_of_tokens_eq {d d' : Phrase .stmts} (hsep : d.Separated) (hsep' : d'.Separated)
    (h : d.tokens = d'.tokens) : d = d' := by
  have hend : ∀ d : Phrase .stmts, d.EndsBefore [] := by
    intro d token htoken
    simp at htoken
  exact (d.determined hsep d' hsep' (hend d) (hend d') (by rw [h])).1

end Phrase
end Grammar
end TreeWalk
