import Mathlib.Data.List.Basic
import TreeWalk.Proofs.ParserRules

/-!
# Where blocks end

A block is meant to end at the partner of its opening brace: at the first closing brace by which as
many braces were closed as opened.  It does so as long as the parser takes every brace for what it
is.  But a statement may also come to an end because no expression starts with a brace: `return` in
front of a closing brace tries to read one, and so does an opening brace where a statement should
start.  Such a brace is refused, passed over and forgotten.  The block then ends at the partner
among the braces that are left, which may lie behind the one it should have ended at, or before it.

## Main definitions

* `Parse.opens`, `Parse.closes`, `Parse.IsPartner` — braces are counted, and a closing brace is the
  partner of an opening one.
* `Parse.Paired` — braces come in pairs, apart from some that are struck out.
* `Diagnostic.refusesBrace` — the complaint that no expression starts with a brace.

## Main results

* `Parse.pairing_rules` — **the moves of the parser pair all braces that are not refused.**
* `Parse.Paired.isPartner` — where no brace is struck out, a pair of braces are partners.
* `Parse.block_ends_at_partner` — a block ends at the partner among the braces that are not refused.
* `Parse.block_passes_partner` — a block that goes on behind the partner of its opening brace.
-/

namespace TreeWalk

/-! ### Complaints about braces -/

/-- Whether the `diagnostic` says that no expression starts with a brace. -/
def Diagnostic.refusesBrace (diagnostic : Diagnostic) : Bool :=
  diagnostic.message = (Complaint.noExpression .openBrace).message ||
    diagnostic.message = (Complaint.noExpression .closeBrace).message

/-- Braces are the only kinds with the labels of braces. -/
theorem Kind.isBrace_of_label {kind brace : Kind} (hbrace : brace.isBrace)
    (h : kind.label = brace.label) : kind.isBrace := by
  have hbraces : brace = .openBrace ∨ brace = .closeBrace := by
    simpa [Kind.isBrace] using hbrace
  rcases hbraces with rfl | rfl
  all_goals
    cases kind with
    | openBrace | closeBrace => rfl
    | unassigned number =>
      have hhead : (unassigned number).label.head? = some (ascii 'K') := rfl
      rw [h] at hhead
      exact absurd hhead (by decide)
    | _ => exact absurd h (by decide)

namespace Diagnostic

theorem refusesBrace_noExpression (kind : Kind) (pos : Position) :
    (of (.noExpression kind) pos).refusesBrace = kind.isBrace := by
  have hlabel (other : Kind) : (of (.noExpression kind) pos).message =
      (Complaint.noExpression other).message ↔ kind.label = other.label := by
    simp only [of, Complaint.message, List.append_cancel_left_eq]
  rw [Bool.eq_iff_iff, refusesBrace, Bool.or_eq_true, decide_eq_true_eq, decide_eq_true_eq, hlabel,
    hlabel]
  constructor
  · rintro (h | h)
    · exact Kind.isBrace_of_label rfl h
    · exact Kind.isBrace_of_label rfl h
  · intro h
    rw [Kind.isBrace, Bool.or_eq_true, decide_eq_true_eq, decide_eq_true_eq] at h
    exact h.imp (congrArg Kind.label) (congrArg Kind.label)

/-- Complaints of other causes start with other words than `noExpression`, whose text starts with an
`n`. -/
theorem refusesBrace_of_head? {diagnostic : Diagnostic}
    (h : diagnostic.message.head? ≠ some (ascii 'n')) : diagnostic.refusesBrace = false := by
  have hhead (kind : Kind) :
      (Complaint.noExpression kind).message.head? = some (ascii 'n') := rfl
  rw [refusesBrace, Bool.or_eq_false_iff, decide_eq_false_iff_not, decide_eq_false_iff_not]
  exact ⟨fun hmessage => h (hmessage ▸ hhead _), fun hmessage => h (hmessage ▸ hhead _)⟩

theorem refusesBrace_expected (wanted found : Kind) (pos : Position) :
    (of (.expected wanted found) pos).refusesBrace = false := by
  apply refusesBrace_of_head?
  have hhead : (of (.expected wanted found) pos).message.head? = some (ascii 'e') := rfl
  rw [hhead]
  decide

theorem refusesBrace_tooLarge (digits : Bytes) (pos : Position) :
    (of (.tooLarge digits) pos).refusesBrace = false := by
  apply refusesBrace_of_head?
  have hhead : (of (.tooLarge digits) pos).message.head? = some (ascii 'c') := rfl
  rw [hhead]
  decide

end Diagnostic

namespace Parse

/-! ### Partners -/

/-- The number of opening braces in `tokens`. -/
def opens (tokens : List Token) : Nat := tokens.countP fun token => token.kind = .openBrace

/-- The number of closing braces in `tokens`. -/
def closes (tokens : List Token) : Nat := tokens.countP fun token => token.kind = .closeBrace

/-- A closing brace behind the tokens `inside` is the partner of an opening brace in front of them:
with the two, as many braces are closed as opened, and at no closing brace before that is so. -/
def IsPartner (inside : List Token) : Prop :=
  closes inside = opens inside ∧ ∀ before closing after, inside = before ++ closing :: after →
    closing.kind = .closeBrace → closes before ≠ opens before

@[simp] theorem opens_nil : opens [] = 0 := rfl

@[simp] theorem closes_nil : closes [] = 0 := rfl

@[simp] theorem opens_cons (token : Token) (tokens : List Token) :
    opens (token :: tokens) = opens tokens + if token.kind = .openBrace then 1 else 0 := by
  simp [opens, List.countP_cons]

@[simp] theorem closes_cons (token : Token) (tokens : List Token) :
    closes (token :: tokens) = closes tokens + if token.kind = .closeBrace then 1 else 0 := by
  simp [closes, List.countP_cons]

@[simp] theorem opens_append (first second : List Token) :
    opens (first ++ second) = opens first + opens second := List.countP_append

@[simp] theorem closes_append (first second : List Token) :
    closes (first ++ second) = closes first + closes second := List.countP_append

/-! ### Pairs -/

/-- The braces of some tokens come in pairs, apart from those that are struck out; the second list
holds those. -/
inductive Paired : List Token → List Token → Prop
  /-- No tokens. -/
  | nil : Paired [] []
  /-- A token that is no brace. -/
  | other {token : Token} (h : token.kind.isBrace = false) : Paired [token] []
  /-- A brace that is struck out. -/
  | struck {token : Token} (h : token.kind.isBrace = true) : Paired [token] [token]
  /-- A pair of braces around tokens. -/
  | braces {opening closing : Token} {inside struck : List Token}
      (hopening : opening.kind = .openBrace) (hclosing : closing.kind = .closeBrace)
      (hinside : Paired inside struck) : Paired (opening :: inside ++ [closing]) struck
  /-- Tokens in a row. -/
  | append {first second struck more : List Token} (hfirst : Paired first struck)
      (hsecond : Paired second more) : Paired (first ++ second) (struck ++ more)

namespace Paired

variable {tokens struck inside : List Token}

/-- By induction on `Paired`: only the braces in `struck` make a difference between opening and
closing ones. -/
theorem balance (h : Paired tokens struck) :
    closes tokens + opens struck = opens tokens + closes struck := by
  induction h with
  | nil => rfl
  | @other token h =>
    rw [Kind.isBrace, Bool.or_eq_false_iff, decide_eq_false_iff_not, decide_eq_false_iff_not] at h
    simp [h.1, h.2]
  | @struck token h => exact Nat.add_comm _ _
  | braces hopening hclosing _ ih =>
    simp only [List.cons_append, opens_cons, closes_cons, opens_append, closes_append, opens_nil,
      closes_nil, hopening, hclosing, if_true, reduceCtorEq, if_false]
    omega
  | append _ _ ihfirst ihsecond =>
    simp only [opens_append, closes_append]
    omega

/-- By induction on `Paired`: up to any place no more braces are closed than opened, apart from
those in `struck`. -/
theorem closes_le (h : Paired tokens struck) (before after : List Token)
    (hsplit : tokens = before ++ after) : closes before ≤ opens before + closes struck := by
  induction h generalizing before after with
  | nil =>
    obtain ⟨rfl, -⟩ := List.append_eq_nil_iff.1 hsplit.symm
    exact Nat.zero_le _
  | @other token h =>
    rw [Kind.isBrace, Bool.or_eq_false_iff, decide_eq_false_iff_not, decide_eq_false_iff_not] at h
    rcases List.append_eq_singleton_iff.1 hsplit.symm with ⟨rfl, -⟩ | ⟨rfl, -⟩
    · exact Nat.zero_le _
    · simp [h.2]
  | @struck token h =>
    rcases List.append_eq_singleton_iff.1 hsplit.symm with ⟨rfl, -⟩ | ⟨rfl, -⟩
    · exact Nat.zero_le _
    · exact Nat.le_add_left _ _
  | @braces opening closing inside struck hopening hclosing hinside ih =>
    cases before with
    | nil => exact Nat.zero_le _
    | cons first before =>
      obtain ⟨rfl, htail⟩ : opening = first ∧ inside ++ [closing] = before ++ after :=
        List.cons.inj hsplit
      -- the place is either inside the pair or behind all of it
      rcases List.append_eq_append_iff.1 htail with ⟨more, rfl, hmore⟩ | ⟨more, rfl, -⟩
      · have hbalance := hinside.balance
        rcases List.append_eq_singleton_iff.1 hmore.symm with ⟨rfl, -⟩ | ⟨rfl, -⟩
        · simp only [List.append_nil, opens_cons, closes_cons, hopening, if_true, reduceCtorEq,
            if_false]
          omega
        · simp only [opens_cons, closes_cons, opens_append, closes_append, opens_nil, closes_nil,
            hopening, hclosing, if_true, reduceCtorEq, if_false]
          omega
      · have hbefore := ih before more rfl
        simp only [opens_cons, closes_cons, hopening, if_true, reduceCtorEq, if_false]
        omega
  | @append first second struck more hfirst hsecond ihfirst ihsecond =>
    rcases List.append_eq_append_iff.1 hsplit with ⟨middle, rfl, rfl⟩ | ⟨middle, rfl, -⟩
    -- behind the first part its braces are balanced, up to those struck out in it
    · have hbalance := hfirst.balance
      have hbefore := ihsecond middle after rfl
      simp only [opens_append, closes_append]
      omega
    · have hbefore := ihfirst before middle rfl
      simp only [closes_append]
      omega

/-- Where no brace is `struck` out, a closing brace behind the tokens `inside` is the partner of an
opening one in front of them. -/
theorem isPartner (h : Paired inside []) : IsPartner inside := by
  refine ⟨h.balance, fun before closing after hsplit hclosing hlevel => ?_⟩
  have hle := h.closes_le (before ++ [closing]) after (by simp [hsplit])
  simp only [opens_append, closes_append, opens_cons, closes_cons, opens_nil, closes_nil, hclosing,
    if_true, reduceCtorEq, if_false] at hle
  omega

/-- A partner is found in spite of braces that are `struck` out only if these are equally many of
either kind. -/
theorem opens_eq_of_isPartner (h : Paired inside struck) (hpartner : IsPartner inside) :
    opens struck = closes struck := by
  have hbalance := h.balance
  have hlevel := hpartner.1
  omega

end Paired

/-! ### What the parser pairs -/

/-- The complaint that no expression starts with `token`. -/
def refusal (token : Token) : Diagnostic := .of (.noExpression token.kind) token.pos

/-- What a reading takes has its braces `Paired`, apart from those for which there is a `refusal`.
A reading that fails at the end of the input may have left braces open. -/
def Pairs (tokens : List Token) (ok : Bool) (rest : List Token) (diagnostics : List Diagnostic) :
    Prop :=
  ok = false ∧ rest = [] ∨ ∃ taken struck, tokens = taken ++ rest ∧ Paired taken struck ∧
    struck.map refusal = diagnostics.filter Diagnostic.refusesBrace

/-- What a block takes behind its opening brace is tokens with their braces `Paired` and a closing
brace.  It fails only at the end of the input. -/
def PairsInside (tokens : List Token) (ok : Bool) (rest : List Token)
    (diagnostics : List Diagnostic) : Prop :=
  ok = false ∧ rest = [] ∨ ∃ inside closing struck, tokens = inside ++ closing :: rest ∧
    closing.kind = .closeBrace ∧ Paired inside struck ∧
    struck.map refusal = diagnostics.filter Diagnostic.refusesBrace

namespace Pairs

variable {token brace : Token} {tokens middle rest : List Token} {ok read : Bool}
  {diagnostics more : List Diagnostic}

/-- Nothing is taken, and no brace is refused in the `diagnostics`. -/
theorem still (h : ∀ diagnostic ∈ diagnostics, diagnostic.refusesBrace = false) :
    Pairs tokens ok tokens diagnostics :=
  .inr ⟨[], [], rfl, .nil, (List.filter_eq_nil_iff.2 fun diagnostic hdiagnostic => by
    simp [h diagnostic hdiagnostic]).symm⟩

theorem taken (hkind : token.kind.isBrace = false) (h : Pairs tokens ok rest diagnostics) :
    Pairs (token :: tokens) ok rest diagnostics := by
  rcases h with hfailed | ⟨taken, struck, rfl, htaken, hstruck⟩
  · exact .inl hfailed
  · exact .inr ⟨token :: taken, struck, rfl, .append (.other hkind) htaken, hstruck⟩

theorem onward (hfirst : Pairs tokens true middle diagnostics)
    (hsecond : Pairs middle ok rest more) : Pairs tokens ok rest (diagnostics ++ more) := by
  rcases hfirst with ⟨hfalse, -⟩ | ⟨taken, struck, rfl, htaken, hstruck⟩
  · exact Bool.noConfusion hfalse
  · rcases hsecond with hfailed | ⟨taken', struck', rfl, htaken', hstruck'⟩
    · exact .inl hfailed
    · refine .inr ⟨taken ++ taken', struck ++ struck', (List.append_assoc _ _ _).symm,
        .append htaken htaken', ?_⟩
      rw [List.map_append, List.filter_append, hstruck, hstruck']

/-- The `token` is refused: if it is a brace it is struck out. -/
theorem refused (token : Token) (tokens : List Token) :
    Pairs (token :: tokens) false tokens [refusal token] := by
  have hfilter : [refusal token].filter Diagnostic.refusesBrace =
      if token.kind.isBrace then [refusal token] else [] := by
    rw [List.filter_singleton, refusal, Diagnostic.refusesBrace_noExpression, Bool.cond_eq_ite]
  cases hkind : token.kind.isBrace with
  | false => exact .inr ⟨[token], [], rfl, .other hkind, by rw [hfilter, hkind]; rfl⟩
  | true => exact .inr ⟨[token], [token], rfl, .struck hkind, by rw [hfilter, hkind]; rfl⟩

theorem braced (hbrace : brace.kind = .openBrace) (h : PairsInside tokens ok rest diagnostics) :
    Pairs (brace :: tokens) ok rest diagnostics := by
  rcases h with hfailed | ⟨inside, closing, struck, rfl, hclosing, hinside, hstruck⟩
  · exact .inl hfailed
  · refine .inr ⟨brace :: inside ++ [closing], struck, ?_, .braces hbrace hclosing hinside, hstruck⟩
    simp

/-- A statement inside a block, which may be left out, and what follows it.  If the statement fails
at the end of the input, so does the block. -/
theorem row (hstmt : Pairs tokens read middle diagnostics)
    (hmore : PairsInside middle ok rest more) :
    PairsInside tokens ok rest (diagnostics ++ more) := by
  rcases hmore with hfailed | ⟨inside, closing, struck, rfl, hclosing, hinside, hstruck⟩
  · exact .inl hfailed
  · rcases hstmt with ⟨-, hempty⟩ | ⟨taken, struck', rfl, htaken, hstruck'⟩
    · exact absurd hempty (by simp)
    · refine .inr ⟨taken ++ inside, closing, struck' ++ struck, (List.append_assoc _ _ _).symm,
        hclosing, .append htaken hinside, ?_⟩
      rw [List.map_append, List.filter_append, hstruck, hstruck']

end Pairs

/-- **The moves of the parser pair all braces that are not refused**: `Pairs` and `PairsInside` are
kept by all of `Rules`. -/
theorem pairing_rules (finish : Token) : Rules finish (.plain Pairs) (.plain PairsInside) where
  still tokens := Pairs.still (List.forall_mem_nil _)
  taken := Pairs.taken
  onward := Pairs.onward
  called _ _ h := h
  spared _ h := h
  missed _ tokens :=
    Pairs.still (List.forall_mem_singleton.2 (Diagnostic.refusesBrace_expected _ _ _))
  refused := Pairs.refused
  refusedEnd := .inl ⟨rfl, rfl⟩
  tooLarge token tokens hkind := by
    refine Pairs.taken (by rw [hkind]; rfl) (Pairs.still ?_)
    exact List.forall_mem_singleton.2 (Diagnostic.refusesBrace_tooLarge _ _)
  braced := Pairs.braced
  closed tokens hclosing := .inr ⟨[], _, [], rfl, hclosing, .nil, rfl⟩
  unclosed := .inl ⟨rfl, rfl⟩
  row _ := Pairs.row

/-- **A block ends at the partner of its opening brace among the braces that are not refused.**
Behind its opening brace a block takes tokens and a closing brace.  The braces among the tokens come
in pairs, apart from those that are reported as the start of no expression.  So if none is, the
closing brace is the partner of the opening one, whatever else is reported; and it can be the
partner only if as many opening braces are refused as closing ones. -/
theorem block_ends_at_partner (finish : Token) (tokens : List Token) (nodes : List Node)
    (h : (block finish tokens).result = some nodes) :
    let refusals := (block finish tokens).diagnostics.filter Diagnostic.refusesBrace
    ∃ inside closing struck, tokens = inside ++ closing :: (block finish tokens).rest ∧
      closing.kind = .closeBrace ∧ Paired inside struck ∧ struck.map refusal = refusals ∧
      (refusals = [] → IsPartner inside) ∧
      (IsPartner inside → opens struck = closes struck) := by
  intro refusals
  have hblock : PairsInside tokens (block finish tokens).result.isSome (block finish tokens).rest
      (block finish tokens).diagnostics := block_meets (pairing_rules finish) tokens
  rw [h] at hblock
  rcases hblock with ⟨hfalse, -⟩ | ⟨inside, closing, struck, htokens, hclosing, hinside, hstruck⟩
  · exact Bool.noConfusion hfalse
  · refine ⟨inside, closing, struck, htokens, hclosing, hinside, hstruck, fun hnone => ?_,
      hinside.opens_eq_of_isPartner⟩
    have hempty : struck = [] := List.map_eq_nil_iff.1 (hstruck.trans hnone)
    exact (hempty ▸ hinside).isPartner

/-- In `let } b` the name is missing, and the block still ends in front of `b`. -/
theorem block_ends_at_partner_without_name :
    let letWord : Token := ⟨.letWord, utf8 "let", ⟨[], 1, 3⟩⟩
    let closing : Token := ⟨.closeBrace, utf8 "\x7d", ⟨[], 1, 7⟩⟩
    let name : Token := ⟨.ident, utf8 "b", ⟨[], 1, 9⟩⟩
    let finish : Token := ⟨.eof, [], ⟨[], 1, 10⟩⟩
    let reading := block finish [letWord, closing, name]
    (Cursor.start [] (utf8 "\x7b let \x7d b")).tokens.tail = [letWord, closing, name] ∧
      reading.result = some [] ∧ reading.rest = [name] ∧ reading.diagnostics.length = 1 ∧
      IsPartner [letWord] := by
  have htokens : (Cursor.start [] (utf8 "\x7b let \x7d b")).tokens.tail =
      [⟨.letWord, utf8 "let", ⟨[], 1, 3⟩⟩, ⟨.closeBrace, utf8 "\x7d", ⟨[], 1, 7⟩⟩,
        ⟨.ident, utf8 "b", ⟨[], 1, 9⟩⟩] := by
    decide +kernel
  intro letWord closing name finish reading
  have hresult : reading.result = some [] := by with_unfolding_all rfl
  have hrest : reading.rest = [name] := by with_unfolding_all rfl
  have hlength : reading.diagnostics.length = 1 := by with_unfolding_all rfl
  have hrefusals : reading.diagnostics.filter Diagnostic.refusesBrace = [] := by
    with_unfolding_all rfl
  obtain ⟨inside, brace, struck, hinside, -, -, -, hpartner, -⟩ :=
    block_ends_at_partner finish [letWord, closing, name] [] hresult
  -- what the block takes is determined by what it leaves
  have hletWord : [letWord] = inside := by
    change [letWord] ++ [closing, name] = inside ++ brace :: reading.rest at hinside
    rw [hrest] at hinside
    exact (List.append_inj' hinside rfl).1
  exact ⟨htokens, hresult, hrest, hlength, hletWord ▸ hpartner hrefusals⟩

/-- In `if (a) { return } b }` the return is left without a value.  The brace behind it, which is
the partner of the opening one, is refused as the start of an expression, and the block goes on to
the next closing brace with `b` in it. -/
theorem block_passes_partner :
    let returnWord : Token := ⟨.returnWord, utf8 "return", ⟨[], 1, 10⟩⟩
    let partner : Token := ⟨.closeBrace, utf8 "\x7d", ⟨[], 1, 17⟩⟩
    let name : Token := ⟨.ident, utf8 "b", ⟨[], 1, 19⟩⟩
    let last : Token := ⟨.closeBrace, utf8 "\x7d", ⟨[], 1, 21⟩⟩
    let finish : Token := ⟨.eof, [], ⟨[], 1, 22⟩⟩
    let reading := block finish [returnWord, partner, name, last]
    (Cursor.start [] (utf8 "if (a) \x7b return \x7d b \x7d")).tokens.drop 5 =
        [returnWord, partner, name, last] ∧
      IsPartner [returnWord] ∧ ¬ IsPartner [returnWord, partner, name] ∧
      reading.result = some [.exprStmt name (.ident ⟨name, utf8 "b"⟩)] ∧ reading.rest = [] ∧
      reading.diagnostics = [refusal partner] := by
  have htokens : (Cursor.start [] (utf8 "if (a) \x7b return \x7d b \x7d")).tokens.drop 5 =
      [⟨.returnWord, utf8 "return", ⟨[], 1, 10⟩⟩, ⟨.closeBrace, utf8 "\x7d", ⟨[], 1, 17⟩⟩,
        ⟨.ident, utf8 "b", ⟨[], 1, 19⟩⟩, ⟨.closeBrace, utf8 "\x7d", ⟨[], 1, 21⟩⟩] := by
    decide +kernel
  intro returnWord partner name last finish reading
  refine ⟨htokens, (Paired.other rfl).isPartner, fun hpartner => ?_, ?_, ?_, ?_⟩
  · exact hpartner.2 [returnWord] partner [name] rfl rfl rfl
  · with_unfolding_all rfl
  · with_unfolding_all rfl
  · with_unfolding_all rfl

end Parse

end TreeWalk
