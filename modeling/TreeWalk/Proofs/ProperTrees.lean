import TreeWalk.Proofs.CallDepth
import TreeWalk.Proofs.Lockstep
import TreeWalk.Proofs.Rendering
import TreeWalk.Proofs.TwinReadings

/-!
# No text makes evaluation get stuck

A tree is *proper* when nothing is missing in it, at any depth: statements stand where statements
belong and expressions where expressions belong, no position is left open but the second block of a
choice, and every operator is one of the language.  Whatever the text is, what the parser keeps of
it is proper, since a statement that is damaged anywhere outside its blocks is left out as a whole.

Evaluation gets stuck at malformed nodes only.  A run of a proper program, on a machine on which
every function has a proper body, meets none, and leaves such a machine behind; the functions it
meets may come from programs that were run before.

## Main definitions

* `Node.IsExpression`, `Node.IsStatement`, `Node.IsBody` — proper trees.
* `Token.IsFaithful` — the text of a token is one that its kind admits.
* `Machine.Proper` — all functions on a machine have proper bodies.
* `Machine.Fed` — what becomes of a new machine by running parsed programs on it.

## Main results

* `Parse.proper_kinship` — the parser builds proper trees.
* `Cursor.parse_proper` — **whatever is read is proper.**
* `Machine.Proper.run` — **proper programs do not get stuck.**
* `Machine.run_parsed_never_stuck` — the same for all texts, one after the other.
-/

namespace TreeWalk

open Spelling Parse

/-! ### Proper trees -/

namespace Node

mutual

/-- An expression in which nothing is missing. -/
inductive IsExpression : Node → Prop
  /-- A name. -/
  | ident (id : Ident) : IsExpression (.ident id)
  /-- A number. -/
  | number (token : Token) (value : Float) : IsExpression (.number token value)
  /-- A quoted text. -/
  | text (token : Token) (value : Bytes) : IsExpression (.text token value)
  /-- A truth value. -/
  | boolean (token : Token) (value : Bool) : IsExpression (.boolean token value)
  /-- One of the operators before an operand. -/
  | prefixOp {token : Token} {op : Bytes} {right : Node} (hop : op ∈ prefixSigns.map (·.2))
      (hright : IsExpression right) : IsExpression (.prefixOp token op right)
  /-- One of the operators between operands. -/
  | infixOp {token : Token} {op : Bytes} {left right : Node} (hop : op ∈ infixSigns.map (·.2))
      (hleft : IsExpression left) (hright : IsExpression right) :
      IsExpression (.infixOp token op left right)
  /-- A choice without a second block. -/
  | ifOnly {token : Token} {cond yes : Node} (hcond : IsExpression cond) (hyes : IsBody yes) :
      IsExpression (.ifElse token cond yes .hole)
  /-- A choice between two blocks. -/
  | ifElse {token : Token} {cond yes no : Node} (hcond : IsExpression cond) (hyes : IsBody yes)
      (hno : IsBody no) : IsExpression (.ifElse token cond yes no)
  /-- A function. -/
  | function {token : Token} {params : List Ident} {body : Node} (hbody : IsBody body) :
      IsExpression (.function token params body)
  /-- A call. -/
  | call {token : Token} {callee : Node} {args : List Node} (hcallee : IsExpression callee)
      (hargs : ∀ arg ∈ args, IsExpression arg) : IsExpression (.call token callee args)

/-- A statement in which nothing is missing. -/
inductive IsStatement : Node → Prop
  /-- A binding. -/
  | letStmt {token : Token} {name : Ident} {value : Node} (hvalue : IsExpression value) :
      IsStatement (.letStmt token name value)
  /-- A return. -/
  | returnStmt {token : Token} {value : Node} (hvalue : IsExpression value) :
      IsStatement (.returnStmt token value)
  /-- An expression as a statement. -/
  | exprStmt {token : Token} {expr : Node} (hexpr : IsExpression expr) :
      IsStatement (.exprStmt token expr)

/-- A block in which nothing is missing. -/
inductive IsBody : Node → Prop
  /-- Statements in braces. -/
  | block {token : Token} {stmts : List Node} (hstmts : ∀ stmt ∈ stmts, IsStatement stmt) :
      IsBody (.block token stmts)

end

/-- A tree in which nothing is missing: an `IsExpression`, an `IsStatement` or an `IsBody`. -/
def IsProper (node : Node) : Prop := node.IsExpression ∨ node.IsStatement ∨ node.IsBody

theorem IsBody.isBlock {node : Node} (h : node.IsBody) : node.isBlock := by
  cases h
  rfl

end Node

/-! ### What the parser builds -/

/-- The text of a token is one that its kind admits, in the sense of `Kind.Admits`, unless the token
is illegal. -/
def Token.IsFaithful (token : Token) : Prop :=
  token.kind = .illegal ∨ token.kind.Admits token.lexeme

theorem Cursor.tokens_faithful (cursor : Cursor) : ∀ token ∈ cursor.tokens, token.IsFaithful := by
  obtain ⟨lead, stretches, -, -, htokens, -, hlaid⟩ := cursor.exists_stretches
  intro token htoken
  rw [htokens] at htoken
  obtain ⟨stretch, hstretch, rfl⟩ := List.mem_map.mp htoken
  obtain ⟨before, after, rfl⟩ := List.append_of_mem hstretch
  have hspelled := (hlaid before stretch after rfl).spelled
  -- whatever is not illegal is written as its kind is
  obtain ⟨⟨kind, lexeme, pos⟩, raw, gap⟩ := stretch
  cases hspelled with
  | token hwritten _ => exact .inr (Kind.admits_iff.mpr ⟨_, hwritten⟩)
  | _ => exact .inl rfl

/-- The text of a sign is fixed by its kind: if every entry of `reserved` and `signTexts` whose kind
occurs in `signs` is in `signs`, then a faithful token with such a kind is an entry of `signs`. -/
theorem Token.IsFaithful.item_mem {token : Token} (h : token.IsFaithful)
    {signs : List (Kind × Bytes)} (hkind : token.kind ∈ signs.map (·.1))
    (hsigns : ∀ entry ∈ reserved ++ signTexts, entry.1 ∈ signs.map (·.1) → entry ∈ signs)
    (hother : ∀ kind ∈ [.illegal, .ident, .int, .string], kind ∉ signs.map (·.1)) :
    token.item ∈ signs := by
  rcases h with hillegal | hmem | ⟨hident, -⟩ | ⟨hint, -⟩ | ⟨hstring, -⟩
  · exact absurd (hillegal ▸ hkind) (hother _ (by simp))
  · exact hsigns _ hmem hkind
  · exact absurd (hident ▸ hkind) (hother _ (by simp))
  · exact absurd (hint ▸ hkind) (hother _ (by simp))
  · exact absurd (hstring ▸ hkind) (hother _ (by simp))

theorem Token.IsFaithful.prefix_mem {token : Token} (h : token.IsFaithful)
    (hkind : token.kind = .bang ∨ token.kind = .minus) :
    token.lexeme ∈ prefixSigns.map (·.2) := by
  have hmem : token.kind ∈ prefixSigns.map (·.1) := by
    rcases hkind with hkind | hkind <;> rw [hkind] <;> decide
  exact List.mem_map.mpr ⟨token.item, h.item_mem hmem (by decide) (by decide), rfl⟩

theorem Token.IsFaithful.infix_mem {token : Token} (h : token.IsFaithful)
    (hrank : 0 < token.kind.precedence.rank) (hkind : token.kind ≠ .openParen) :
    token.lexeme ∈ infixSigns.map (·.2) := by
  -- nothing binds what stands before it but operators and the parenthesis of a call
  have hmem : token.kind ∈ infixSigns.map (·.1) := by
    generalize token.kind = kind at hrank hkind
    cases kind <;>
      first
      | decide
      | exact absurd rfl hkind
      | exact absurd hrank (Nat.not_lt_zero _)
  exact List.mem_map.mpr ⟨token.item, h.item_mem hmem (by decide) (by decide), rfl⟩

/-- A `List.Forall₂` that looks at the first of two trees only is a property of the first list. -/
theorem forall_mem_of_forall₂ {p : Node → Prop} {nodes twins : List Node}
    (h : List.Forall₂ (fun node _ => p node) nodes twins) : ∀ node ∈ nodes, p node := by
  induction h with
  | nil => exact List.forall_mem_nil p
  | cons hnode _ ih => exact List.forall_mem_cons.2 ⟨hnode, ih⟩

/-- Tokens with `Token.IsFaithful` are built into proper trees: a `Kinship` that relates a token to
itself and looks at the first tree only. -/
theorem Parse.proper_kinship :
    Kinship (fun _ _ => True) (fun token twin => token = twin ∧ token.IsFaithful) (fun _ _ => True)
      (fun node _ => node.IsExpression) (fun node _ => node.IsStatement)
      (fun node _ => node.IsBody) (fun node _ => node = .hole ∨ node.IsBody) where
  alike := by
    rintro token _ ⟨rfl, -⟩
    exact ⟨rfl, rfl, trivial⟩
  name _ := trivial
  ident _ := .ident _
  number _ value := .number _ value
  text _ := .text _ _
  boolean _ value := .boolean _ value
  prefixOp h hkind hright := .prefixOp (h.2.prefix_mem hkind) hright
  infixOp h hrank hkind hleft hright := .infixOp (h.2.infix_mem hrank hkind) hleft hright
  ifElse _ hcond hyes hno := by
    -- the second block may be missing, and nothing else may
    rcases hno with rfl | hno
    · exact .ifOnly hcond hyes
    · exact .ifElse hcond hyes hno
  function _ _ hbody := .function hbody
  call _ hcallee hargs := .call hcallee (forall_mem_of_forall₂ hargs)
  letStmt _ _ hvalue := .letStmt hvalue
  returnStmt _ hvalue := .returnStmt hvalue
  exprStmt _ hexpr := .exprStmt hexpr
  block _ hstmts := .block (forall_mem_of_forall₂ hstmts)
  hole := .inl rfl
  other := .inr

/-- **Whatever is read is proper**, with or without complaints: all of `cursor.parse.program` are
`IsStatement`s. -/
theorem Cursor.parse_proper (cursor : Cursor) :
    ∀ stmt ∈ cursor.parse.program, stmt.IsStatement := by
  have hfinish : cursor.finish.endToken.Alike (fun _ _ => True) cursor.finish.endToken :=
    ⟨rfl, rfl, trivial⟩
  have htokens : List.Forall₂ (fun token twin => token = twin ∧ token.IsFaithful) cursor.tokens
      cursor.tokens :=
    List.forall₂_same.mpr fun token htoken => ⟨rfl, cursor.tokens_faithful token htoken⟩
  exact forall_mem_of_forall₂ (parse_twins Parse.proper_kinship hfinish htokens).1

/-! ### Proper programs do not get stuck -/

namespace Machine

/-- All closures that the heap of `machine` holds have an `IsBody` as their body. -/
def Proper (machine : Machine) : Prop :=
  ∀ id name value, machine.heap.Holds id name value → value.EachFunction (·.body.IsBody)

/-- The same tree, which is `IsProper`. -/
def SameProper (node twin : Node) : Prop := node = twin ∧ node.IsProper

/-- A row of proper trees is related to itself by `SameProper`. -/
theorem forall₂_sameProper {nodes : List Node} (h : ∀ node ∈ nodes, node.IsProper) :
    List.Forall₂ SameProper nodes nodes :=
  List.forall₂_same.mpr fun node hnode => ⟨rfl, h node hnode⟩

/-- The layers of a proper tree are those of a tree that is not faulty: `Node.Layer` with `False`
for its faulty case. -/
theorem SameProper.layer {node twin : Node} (h : SameProper node twin) :
    Node.Layer False SameProper node twin := by
  have hbody {node : Node} (h : node.IsBody) : Node.Bodies False SameProper node node :=
    ⟨⟨rfl, .inr (.inr h)⟩, .inr h.isBlock⟩
  obtain ⟨rfl, hexpr | hstmt | hblock⟩ := h
  · cases hexpr with
    | ident id => exact .ident rfl
    | number token value => exact .number value
    | text token value => exact .text value
    | boolean token value => exact .boolean value
    | prefixOp _ hright => exact .prefixOp _ ⟨rfl, .inl hright⟩
    | infixOp _ hleft hright => exact .infixOp _ ⟨rfl, .inl hleft⟩ ⟨rfl, .inl hright⟩
    | ifOnly hcond hyes => exact .ifElse ⟨rfl, .inl hcond⟩ (hbody hyes) (.inl ⟨rfl, rfl⟩)
    | ifElse hcond hyes hno =>
      exact .ifElse ⟨rfl, .inl hcond⟩ (hbody hyes) (.inr ⟨rfl, hbody hno⟩)
    | function _ => exact .function
    | call hcallee hargs =>
      exact .call ⟨rfl, .inl hcallee⟩ (forall₂_sameProper fun arg harg => .inl (hargs arg harg))
  · cases hstmt with
    | letStmt hvalue => exact .letStmt rfl ⟨rfl, .inl hvalue⟩
    | returnStmt hvalue => exact .returnStmt ⟨rfl, .inl hvalue⟩
    | exprStmt hexpr => exact .exprStmt ⟨rfl, .inl hexpr⟩
  · cases hblock with
    | block hstmts =>
      exact .block (forall₂_sameProper fun stmt hstmt => .inr (.inl (hstmts stmt hstmt)))

/-- Evaluation beside itself, on machines with `Proper` functions, as a `Lockstep` in which nothing
is faulty. -/
theorem proper_lockstep : Lockstep False (fun _ => True) SameProper
    (fun closure twin => closure = twin ∧ closure.body.IsBody)
    fun machine twin => machine = twin ∧ machine.Proper where
  layer h := h.layer
  stamp h := congrArg _ h.1
  params h := by rw [h.1]
  body h := ⟨⟨congrArg _ h.1, .inr (.inr h.2)⟩, .inr h.2.isBlock⟩
  depth h := congrArg _ h.1
  next h := ⟨by rw [h.1], trivial⟩
  read {machine twin id} name _ h := by
    obtain ⟨rfl, hproper⟩ := h
    cases hvalue : machine.heap.lookup name id with
    | none => exact .none
    | some value =>
      obtain ⟨other, -, hheld⟩ := Heap.exists_holds_of_lookup (S := fun _ => True)
        (fun _ _ _ _ => trivial) trivial hvalue
      exact .some (Value.Linked.same_iff.mpr ⟨rfl, hproper other name value hheld⟩)
  bind {machine twin id value value'} name _ hvalue h := by
    obtain ⟨rfl, hproper⟩ := h
    obtain ⟨rfl, hvalue'⟩ := Value.Linked.same_iff.mp hvalue
    refine ⟨rfl, fun other key held hheld => ?_⟩
    rcases Heap.holds_bind hheld with ⟨-, -, rfl⟩ | hheld
    · exact hvalue'
    · exact hproper other key held hheld
  make {machine twin id token token' params params' body body'} hnode _ h := by
    obtain ⟨rfl, hproper⟩ := h
    obtain ⟨hsame, hnode⟩ := hnode
    obtain ⟨-, rfl, rfl⟩ := Node.function.inj hsame
    -- a function is neither a statement nor a block, so it is proper as an expression
    have hbody : body.IsBody := by
      rcases hnode with hexpr | hstmt | hblock
      · cases hexpr with
        | function hbody => exact hbody
      · exact nomatch hstmt
      · exact nomatch hblock
    exact ⟨⟨rfl, hproper⟩, rfl, hbody⟩
  push hclosure h := by
    obtain ⟨rfl, -⟩ := hclosure
    obtain ⟨rfl, hproper⟩ := h
    exact ⟨rfl, fun id name value hheld => hproper id name value (Heap.holds_push hheld)⟩
  opened h := ⟨by rw [h.1], h.2⟩
  shut h := ⟨by rw [h.1], h.2⟩

variable {machine : Machine}

theorem Proper.evaluate (h : machine.Proper) (limit : Nat) {program : Program}
    (hprogram : ∀ stmt ∈ program, stmt.IsStatement) (id : ScopeId) :
    (machine.evaluate limit program id).2.Proper ∧
      (machine.evaluate limit program id).1 ≠ .error .stuck := by
  have hnodes := forall₂_sameProper fun stmt hstmt => .inr (.inl (hprogram stmt hstmt))
  obtain ⟨hafter, hend⟩ :=
    proper_lockstep.evaluate_coupled limit id trivial hnodes machine machine ⟨rfl, h⟩
  refine ⟨hafter.2, fun hstuck => ?_⟩
  rw [Machine.evaluate] at hstuck
  rw [hstuck] at hend
  cases hend with
  | error _ hfaulty => exact hfaulty rfl

/-- **Proper programs do not get stuck** when they are run, and leave a `Proper` machine behind. -/
theorem Proper.run (h : machine.Proper) (limit : Nat) {program : Program}
    (hprogram : ∀ stmt ∈ program, stmt.IsStatement) (id : ScopeId) :
    (machine.run limit program id).2.Proper ∧
      (machine.run limit program id).1 ≠ .error .stuck := by
  have hidle : machine.idle.Proper := h
  obtain ⟨hafter, hend⟩ := hidle.evaluate limit hprogram id
  rw [Proper, (run_eq limit program id).1, (run_eq limit program id).2]
  exact ⟨hafter, hend⟩

/-- With a `limit`, a run is given up with `stuck` or with `tooDeep limit` only. -/
theorem run_error_cases {limit : Nat} (hlimit : 0 < limit) {program : Program} {id : ScopeId}
    {reason : Abort} (h : (machine.run limit program id).1 = .error reason) :
    reason = .stuck ∨ reason = .tooDeep limit := by
  rw [run_eq_metered machine program id hlimit] at h
  exact (Metered.program_fits (.tooDeep limit) .unfinished (Nat.le_refl limit) program id
    machine.store).given reason h

/-- With a `limit` no run ends with `unfinished`. -/
theorem run_ne_unfinished (machine : Machine) {limit : Nat} (hlimit : 0 < limit) (program : Program)
    (id : ScopeId) : (machine.run limit program id).1 ≠ .error .unfinished := by
  intro hunfinished
  rcases run_error_cases hlimit hunfinished with hstuck | hdeep
  · cases hstuck
  · cases hdeep

/-- What becomes of `Machine.fresh` when nothing but parsed programs is evaluated on it, in any
scopes and with any limits, up to their ends or up to where they are given up. -/
inductive Fed : Machine → Prop
  /-- A new machine. -/
  | fresh : Fed .fresh
  /-- A parsed program was run. -/
  | run {machine : Machine} (h : Fed machine) (limit : Nat) (cursor : Cursor) (id : ScopeId) :
      Fed (machine.run limit cursor.parse.program id).2
  /-- A parsed program was evaluated. -/
  | evaluate {machine : Machine} (h : Fed machine) (limit : Nat) (cursor : Cursor) (id : ScopeId) :
      Fed (machine.evaluate limit cursor.parse.program id).2
  /-- A scope was opened. -/
  | push {machine : Machine} (h : Fed machine) (outer : Option ScopeId) :
      Fed { machine with heap := machine.heap.push outer }

theorem Fed.reachable (h : machine.Fed) : machine.Reachable := by
  induction h with
  | fresh => exact .fresh
  | run _ limit cursor id ih => exact .run ih limit cursor.parse.program id
  | evaluate _ limit cursor id ih => exact .evaluate ih limit cursor.parse.program id
  | push _ outer ih => exact .push ih outer

theorem Fed.proper (h : machine.Fed) : machine.Proper := by
  induction h with
  | fresh =>
    intro id name value hheld
    obtain ⟨_, hscope, -⟩ := Heap.holds_push hheld
    exact nomatch hscope
  | run _ limit cursor id ih => exact (ih.run limit cursor.parse_proper id).1
  | evaluate _ limit cursor id ih => exact (ih.evaluate limit cursor.parse_proper id).1
  | push _ outer ih => exact fun id name value hheld => ih id name value (Heap.holds_push hheld)

/-- **No text makes evaluation get stuck.**  Whatever the text is, every statement that the parser
keeps is proper at every depth.  And whatever texts were run before, running one with a limit ends
with nothing, with an error, with a value of the language, or because of the limit. -/
theorem run_parsed_never_stuck :
    (∀ cursor : Cursor, ∀ stmt ∈ cursor.parse.program, stmt.IsStatement) ∧
    ∀ machine : Machine, machine.Fed → ∀ limit, 0 < limit → ∀ (cursor : Cursor) (id : ScopeId),
      let ending := (machine.run limit cursor.parse.program id).1
      (∃ value, ending = .ok value ∧ (value = .nothing ∨ value.isError ∨ value.IsPlain)) ∨
        ending = .error (.tooDeep limit) := by
  refine ⟨Cursor.parse_proper, fun machine hfed limit hlimit cursor id => ?_⟩
  intro ending
  have hstuck := (hfed.proper.run limit cursor.parse_proper id).2
  cases hending : ending with
  | error reason =>
    rcases run_error_cases hlimit hending with rfl | rfl
    · exact absurd hending hstuck
    · exact .inr rfl
  | ok value =>
    -- what a program delivers on a machine that holds plain values is no pending return
    have hplain : machine.idle.Plain := hfed.reachable.plain
    have hvalue := (hplain.evaluate limit cursor.parse.program id).2 value
      ((run_eq limit _ id).1.symm.trans hending)
    refine .inl ⟨value, rfl, ?_⟩
    cases hvalue with
    | nothing => exact .inl rfl
    | error fault => exact .inr (.inl rfl)
    | value h => exact .inr (.inr h.isPlain)

/-- Two damaged texts, one run after the other: the first one leaves a function out, the second one
calls it. -/
theorem run_parsed_never_stuck_damaged :
    let first := Cursor.start [] (utf8 "let f = fn(x) \x7b let 3; x \x7d; let g = fn(")
    let second := Cursor.start [] (utf8 "f(1) +; g(\x7d; f(2)")
    let machine := (fresh.run 1 first.parse.program 0).2
    let ending := (machine.run 2 second.parse.program 0).1
    machine.Fed ∧ 0 < 2 ∧
      ((∃ value, ending = .ok value ∧ (value = .nothing ∨ value.isError ∨ value.IsPlain)) ∨
        ending = .error (.tooDeep 2)) := by
  intro first second machine ending
  have hfed : machine.Fed := .run .fresh 1 first 0
  exact ⟨hfed, Nat.two_pos, run_parsed_never_stuck.2 machine hfed 2 Nat.two_pos second 0⟩

end Machine

end TreeWalk
