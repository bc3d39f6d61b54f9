import TreeWalk.Proofs.Lockstep
import TreeWalk.Proofs.ProperTrees
import TreeWalk.Proofs.Relocation

/-!
# Layout does not affect meaning

Where the tokens of a program stand makes no difference to what it does.  The trees of two texts
with the same tokens differ in positions only (`Cursor.parse_alike`), and evaluation looks at no
position: it goes the same way through both trees, and makes functions on both sides whose bodies
again differ in positions only.  Nor does the text of a value show a position, so that all one can
see of the two runs is the same.

## Main definitions

* `Bindings.Linked`, `Heap.Linked` — the same scopes, up to a relation between functions.
* `Closure.Alike`, `Machine.Alike` — the same functions and machines up to positions.
* `Value.LooksLike` — two values of the same type and with the same text.

## Main results

* `Machine.alike_lockstep` — **evaluation is blind to positions.**
* `Node.Alike.render_eq` — trees that differ in positions have the same text.
* `Cursor.layout_irrelevant` — texts with the same tokens have the same meaning.
-/

namespace TreeWalk

/-! ### Heaps that differ in functions only -/

section

variable {F : Closure → Closure → Prop}

/-- The same names in the same order, bound to values that are `Value.Linked F`. -/
def Bindings.Linked (F : Closure → Closure → Prop) (bindings twins : Bindings) : Prop :=
  List.Forall₂ (fun bound twin => bound.1 = twin.1 ∧ Value.Linked F bound.2 twin.2) bindings twins

namespace Bindings.Linked

theorem get? {bindings twins : Bindings} (h : Linked F bindings twins) (name : Bytes) :
    Option.Rel (Value.Linked F) (bindings.get? name) (twins.get? name) := by
  induction h with
  | nil => exact .none
  | @cons bound twin more others hbound _ ih =>
    obtain ⟨key, value⟩ := bound
    obtain ⟨key', value'⟩ := twin
    obtain ⟨rfl, hvalue⟩ := hbound
    rw [Bindings.get?, Bindings.get?]
    split
    · exact .some hvalue
    · exact ih

theorem set {bindings twins : Bindings} (h : Linked F bindings twins) (name : Bytes)
    {value value' : Value} (hvalue : Value.Linked F value value') :
    Linked F (bindings.set name value) (twins.set name value') := by
  induction h with
  | nil => exact .cons ⟨rfl, hvalue⟩ .nil
  | @cons bound twin more others hbound hmore ih =>
    obtain ⟨key, old⟩ := bound
    obtain ⟨key', old'⟩ := twin
    obtain ⟨rfl, hold⟩ := hbound
    rw [Bindings.set, Bindings.set]
    split
    · exact .cons ⟨rfl, hvalue⟩ hmore
    · split
      · exact .cons ⟨rfl, hvalue⟩ (.cons ⟨rfl, hold⟩ hmore)
      · exact .cons ⟨rfl, hold⟩ ih

end Bindings.Linked

/-- Scopes in the same place that bind the same names to linked values. -/
structure Scope.Linked (F : Closure → Closure → Prop) (scope twin : Scope) : Prop where
  /-- The scope around them. -/
  outer : scope.outer = twin.outer
  /-- What they hold. -/
  bindings : Bindings.Linked F scope.bindings twin.bindings

/-- Heaps whose scopes are `Scope.Linked F`, one by one. -/
structure Heap.Linked (F : Closure → Closure → Prop) (heap twin : Heap) : Prop where
  /-- Equally many scopes. -/
  next : heap.next = twin.next
  /-- The scopes. -/
  scope : ∀ id, Option.Rel (Scope.Linked F) (heap.scope? id) (twin.scope? id)

namespace Heap.Linked

variable {heap twin : Heap}

theorem bindings (h : Linked F heap twin) (id : ScopeId) :
    Bindings.Linked F (heap.bindings id) (twin.bindings id) := by
  have hscope := h.scope id
  rw [Heap.bindings, Heap.bindings]
  generalize heap.scope? id = found at hscope
  generalize twin.scope? id = found' at hscope
  cases hscope with
  | none => exact .nil
  | some hscope => exact hscope.bindings

/-- On linked heaps `lookup` takes the same way and finds linked values. -/
theorem lookup (h : Linked F heap twin) (name : Bytes) (id : ScopeId) :
    Option.Rel (Value.Linked F) (heap.lookup name id) (twin.lookup name id) := by
  -- links lead to earlier scopes only, so that the induction is on the number of the scope
  induction id using Nat.strongRecOn with
  | _ id ih =>
    have hscope := h.scope id
    rw [Heap.lookup, Heap.lookup]
    generalize heap.scope? id = found at hscope
    generalize twin.scope? id = found' at hscope
    cases hscope with
    | none => exact .none
    | @some scope scope' hscope =>
      have hget := hscope.bindings.get? name
      dsimp only
      generalize scope.bindings.get? name = value at hget
      generalize scope'.bindings.get? name = value' at hget
      cases hget with
      | some hvalue => exact .some hvalue
      | none =>
        dsimp only
        rw [← hscope.outer]
        cases scope.outer with
        | none => exact .none
        | some outer =>
          dsimp only
          split
          · next hlt => exact ih outer hlt
          · exact .none

theorem bind (h : Linked F heap twin) (id : ScopeId) (name : Bytes) {value value' : Value}
    (hvalue : Value.Linked F value value') :
    Linked F (heap.bind id name value) (twin.bind id name value') where
  next := by
    rw [next_bind, next_bind]
    exact h.next
  scope other := by
    rw [scope?_bind, scope?_bind]
    split
    · have hscope := h.scope id
      generalize heap.scope? id = found at hscope
      generalize twin.scope? id = found' at hscope
      cases hscope with
      | none => exact .none
      | some hscope => exact .some ⟨hscope.outer, hscope.bindings.set name hvalue⟩
    · exact h.scope other

theorem push (h : Linked F heap twin) (outer : Option ScopeId) :
    Linked F (heap.push outer) (twin.push outer) where
  next := by
    rw [next_push, next_push, h.next]
  scope id := by
    rw [scope?_push, scope?_push, h.next]
    split
    · exact .some ⟨rfl, .nil⟩
    · exact h.scope id

end Heap.Linked

end

/-! ### Evaluation is blind to positions -/

variable {P : Position → Position → Prop}

namespace Node.Alike

variable {node twin : Node}

theorem isHole_eq (h : node.Alike P twin) : node.isHole = twin.isHole := by
  cases h <;> rfl

/-- Layer by layer, trees that are `Alike` are the same to evaluation: they have the same
`Node.Layer`. -/
theorem layer (h : node.Alike P twin) : Node.Layer True (Node.Alike P) node twin := by
  have hbody {node twin : Node} (h : node.Alike P twin) :
      Node.Bodies True (Node.Alike P) node twin := ⟨h, .inl trivial⟩
  cases h with
  | hole => exact .hole
  | bare kind => exact .bare trivial kind
  | letStmt _ hname hvalue => exact .letStmt hname.name hvalue
  | returnStmt _ hvalue => exact .returnStmt hvalue
  | exprStmt _ hexpr => exact .exprStmt hexpr
  | block _ hstmts => exact .block hstmts
  | ident hid => exact .ident hid.name
  | number _ value => exact .number value
  | text _ value => exact .text value
  | boolean _ value => exact .boolean value
  | prefixOp _ op hright => exact .prefixOp op hright
  | infixOp _ op hleft hright => exact .infixOp op hleft hright
  | ifElse _ hcond hyes hno => exact .ifElse hcond (hbody hyes) (.inr ⟨hno.isHole_eq, hbody hno⟩)
  | function => exact .function
  | call _ hcallee hargs => exact .call hcallee hargs

end Node.Alike

/-- The same function up to positions, with the same `stamp` and made in the same `scope`. -/
structure Closure.Alike (P : Position → Position → Prop) (closure twin : Closure) : Prop where
  /-- The same stamp. -/
  stamp : closure.stamp = twin.stamp
  /-- The same parameters. -/
  params : List.Forall₂ (Ident.Alike P) closure.params twin.params
  /-- The same body. -/
  body : closure.body.Alike P twin.body
  /-- The same scope. -/
  scope : closure.scope = twin.scope

/-- The same machine up to positions: its heap is `Heap.Linked` by `Closure.Alike`. -/
structure Machine.Alike (P : Position → Position → Prop) (machine twin : Machine) : Prop where
  /-- The scopes. -/
  heap : Heap.Linked (Closure.Alike P) machine.heap twin.heap
  /-- The stamp the next function gets. -/
  stamps : machine.stamps = twin.stamps
  /-- The number of open calls. -/
  depth : machine.depth = twin.depth

/-- Parameters that are `Alike` have the same names. -/
theorem Ident.map_name_eq {params params' : List Ident}
    (h : List.Forall₂ (Ident.Alike P) params params') :
    params.map Ident.name = params'.map Ident.name := by
  rw [← List.forall₂_eq_eq_eq, List.forall₂_map_left_iff, List.forall₂_map_right_iff]
  exact h.imp fun _ _ hparam => hparam.name

/-- **Evaluation is blind to positions**, step by step: `Machine.Alike P` is kept, as a
`Lockstep`. -/
theorem Machine.alike_lockstep (P : Position → Position → Prop) :
    Lockstep True (fun _ => True) (Node.Alike P) (Closure.Alike P) (Machine.Alike P) where
  layer h := h.layer
  stamp h := h.stamp
  params h := Ident.map_name_eq h.params
  body h := ⟨h.body, .inl trivial⟩
  depth h := h.depth
  next h := ⟨h.heap.next, trivial⟩
  read name _ h := h.heap.lookup name _
  bind name _ hvalue h := ⟨h.heap.bind _ name hvalue, h.stamps, h.depth⟩
  make hnode _ h := by
    cases hnode with
    | function _ hparams hbody =>
      exact ⟨⟨h.heap, congrArg (· + 1) h.stamps, h.depth⟩, h.stamps, hparams, hbody, rfl⟩
  push hclosure h := ⟨hclosure.scope ▸ h.heap.push _, h.stamps, h.depth⟩
  opened h := ⟨h.heap, h.stamps, congrArg (· + 1) h.depth⟩
  shut h := ⟨h.heap, h.stamps, congrArg (· - 1) h.depth⟩

/-! ### Texts show no positions -/

theorem renderParams_eq {params params' : List Ident}
    (h : List.Forall₂ (Ident.Alike P) params params') :
    renderParams params = renderParams params' :=
  congrArg (Bytes.join (utf8 ", ")) (Ident.map_name_eq h)

namespace Node

mutual

/-- **Trees that differ in positions have the same text**: `render` looks at none. -/
theorem Alike.render_eq (node twin : Node) (h : node.Alike P twin) :
    node.render = twin.render := by
  cases node with
  | hole =>
    cases h
    rfl
  | bare kind =>
    cases h
    rfl
  | letStmt token name value =>
    cases h with
    | letStmt htoken hname hvalue =>
      rw [render, render, htoken.lexeme, hname.name, Alike.render_eq value _ hvalue]
  | returnStmt token value =>
    cases h with
    | returnStmt htoken hvalue =>
      rw [render, render, htoken.lexeme, Alike.render_eq value _ hvalue]
  | exprStmt token expr =>
    cases h with
    | exprStmt _ hexpr =>
      rw [render, render, Alike.render_eq expr _ hexpr]
  | block token stmts =>
    cases h with
    | block _ hstmts =>
      rw [render, render, renderAll_eq stmts _ hstmts]
  | ident id =>
    cases h with
    | ident hid => exact hid.name
  | number token value =>
    cases h with
    | number htoken => exact htoken.lexeme
  | text token value =>
    cases h
    rfl
  | boolean token value =>
    cases h with
    | boolean htoken => exact htoken.lexeme
  | prefixOp token op right =>
    cases h with
    | prefixOp _ _ hright =>
      rw [render, render, Alike.render_eq right _ hright]
  | infixOp token op left right =>
    cases h with
    | infixOp _ _ hleft hright =>
      rw [render, render, Alike.render_eq left _ hleft, Alike.render_eq right _ hright]
  | ifElse token cond yes no =>
    cases h with
    | ifElse _ hcond hyes hno =>
      rw [render, render, Alike.render_eq cond _ hcond, Alike.render_eq yes _ hyes,
        Alike.render_eq no _ hno, hno.isHole_eq]
  | function token params body =>
    cases h with
    | function htoken hparams hbody =>
      rw [render, render, htoken.lexeme, renderParams_eq hparams, Alike.render_eq body _ hbody]
  | call token callee args =>
    cases h with
    | call _ hcallee hargs =>
      rw [render, render, Alike.render_eq callee _ hcallee, renderEach_eq args _ hargs]
termination_by structural node

theorem renderAll_eq (nodes twins : List Node) (h : List.Forall₂ (Node.Alike P) nodes twins) :
    renderAll nodes = renderAll twins := by
  cases nodes with
  | nil =>
    cases h
    rfl
  | cons node more =>
    cases h with
    | cons hnode hmore =>
      rw [renderAll, renderAll, Alike.render_eq node _ hnode, renderAll_eq more _ hmore]
termination_by structural nodes

theorem renderEach_eq (nodes twins : List Node) (h : List.Forall₂ (Node.Alike P) nodes twins) :
    renderEach nodes = renderEach twins := by
  cases nodes with
  | nil =>
    cases h
    rfl
  | cons node more =>
    cases h with
    | cons hnode hmore =>
      rw [renderEach, renderEach, Alike.render_eq node _ hnode, renderEach_eq more _ hmore]
termination_by structural nodes

end

end Node

namespace Value

/-- Two values with the same `typeLabel` and the same text from `inspect`. -/
def LooksLike (value twin : Value) : Prop :=
  value.typeLabel = twin.typeLabel ∧ value.inspect = twin.inspect

/-- Values that differ in positions only look the same. -/
theorem Linked.looksLike {value twin : Value} (h : Linked (Closure.Alike P) value twin) :
    value.LooksLike twin := by
  induction h with
  | function hclosure =>
    refine ⟨rfl, ?_⟩
    rw [inspect, inspect, inspectFunction, inspectFunction, renderParams_eq hclosure.params,
      Node.Alike.render_eq _ _ hclosure.body]
  | @pending value twin hvalue ih =>
    refine ⟨rfl, ?_⟩
    cases hvalue with
    | nothing => rfl
    | _ => exact ih.2
  | _ => exact ⟨rfl, rfl⟩

end Value

/-- The same names, bound to values that `LooksLike` relates. -/
def Bindings.LookLike (bindings twins : Bindings) : Prop :=
  List.Forall₂ (fun bound twin => bound.1 = twin.1 ∧ bound.2.LooksLike twin.2) bindings twins

/-! ### Runs of programs that differ in positions -/

namespace Machine

/-- Programs that are `Alike`, run in a new session, end alike (`EndAlike`) and leave the same names
bound to values that are linked. -/
theorem run_alike (limit : Nat) {program twin : Program}
    (h : List.Forall₂ (Node.Alike P) program twin) :
    EndAlike True (Value.Linked (Closure.Alike P)) (fresh.run limit program 0).1
        (fresh.run limit twin 0).1 ∧
      Heap.Linked (Closure.Alike P) (fresh.run limit program 0).2.heap
        (fresh.run limit twin 0).2.heap := by
  have hfresh : Machine.Alike P fresh.idle fresh.idle := by
    refine ⟨⟨rfl, fun id => ?_⟩, rfl, rfl⟩
    rw [fresh, idle, Heap.scope?_push]
    split
    · exact .some ⟨rfl, .nil⟩
    · exact .none
  obtain ⟨hafter, hend⟩ :=
    (alike_lockstep P).evaluate_coupled limit 0 trivial h fresh.idle fresh.idle hfresh
  rw [(run_eq limit program 0).1, (run_eq limit program 0).2, (run_eq limit twin 0).1,
    (run_eq limit twin 0).2]
  exact ⟨hend, hafter.heap⟩

/-- The run of a parsed program is given up for its `limit`, if it has one, since it is never
stuck. -/
theorem run_parsed_error {limit : Nat} {cursor : Cursor} {reason : Abort}
    (h : (fresh.run limit cursor.parse.program 0).1 = .error reason) :
    reason = if limit = 0 then .unfinished else .tooDeep limit := by
  -- what the parser builds does not get stuck
  have hstuck := (Fed.fresh.proper.run limit cursor.parse_proper 0).2
  split
  · next hzero =>
    subst hzero
    have hfits := Metered.program_fits .unfinished .unfinished (Nat.le_refl (room 0))
      cursor.parse.program 0 fresh.store
    have hending := h
    rw [run_eq_metered_freely] at hending
    rcases hfits.given reason hending with rfl | rfl
    · exact absurd h hstuck
    · rfl
  · next hlimit =>
    rcases run_error_cases (Nat.pos_of_ne_zero hlimit) h with rfl | rfl
    · exact absurd h hstuck
    · rfl

end Machine

/-- **Layout does not affect meaning.**  Two texts whose tokens have the same kinds and texts, in
whatever places, are read as the same program up to positions, with the same complaints in the same
order.  Run in new sessions with the same limit, both are given up because of the limit, or both end
with values that look the same; and they leave the same names bound to values that look the same. -/
theorem Cursor.layout_irrelevant (file text file' text' : Bytes)
    (h : (start file text).allTokens.map Token.item =
      (start file' text').allTokens.map Token.item) :
    let parsed := (start file text).parse
    let parsed' := (start file' text').parse
    List.Forall₂ (Node.Alike fun _ _ => True) parsed.program parsed'.program ∧
      parsed.diagnostics.map (·.message) = parsed'.diagnostics.map (·.message) ∧
      ∀ limit, 0 < limit →
        let result := Machine.fresh.run limit parsed.program 0
        let result' := Machine.fresh.run limit parsed'.program 0
        (result.1 = .error (.tooDeep limit) ∧ result'.1 = .error (.tooDeep limit) ∨
          ∃ value value', result.1 = .ok value ∧ result'.1 = .ok value' ∧
            value.LooksLike value') ∧
        Bindings.LookLike (result.2.heap.bindings 0) (result'.2.heap.bindings 0) := by
  intro parsed parsed'
  have hitems : (start file text).tokens.map Token.item =
      (start file' text').tokens.map Token.item := by
    simp only [allTokens, List.map_append] at h
    exact List.append_inj_left' h rfl
  -- where a text ends is a position, about which nothing is asked
  have hfinish : (start file text).finish.endToken.Alike (fun _ _ => True)
      (start file' text').finish.endToken := ⟨rfl, rfl, trivial⟩
  obtain ⟨hprogram, hdiagnostics⟩ := parse_alike hfinish (Token.alike_of_items hitems)
  refine ⟨hprogram, ?_, fun limit hlimit => ?_⟩
  · rw [← List.forall₂_eq_eq_eq, List.forall₂_map_left_iff, List.forall₂_map_right_iff]
    exact hdiagnostics.imp fun _ _ hdiagnostic => hdiagnostic.message
  intro result result'
  obtain ⟨hend, hheap⟩ := Machine.run_alike limit hprogram
  constructor
  -- neither run is stuck, so that the limit is the only reason to give up
  · change EndAlike True _ result.1 result'.1 at hend
    cases hresult : result.1 with
    | ok value =>
      rw [hresult] at hend
      generalize result'.1 = ending' at hend
      cases hend with
      | ok hvalue => exact .inr ⟨_, _, rfl, rfl, hvalue.looksLike⟩
    | error reason =>
      obtain rfl := (Machine.run_parsed_error hresult).trans (if_neg (Nat.ne_of_gt hlimit))
      rw [hresult] at hend
      generalize result'.1 = ending' at hend
      cases hend
      exact .inl ⟨rfl, rfl⟩
  · exact (hheap.bindings 0).imp fun _ _ hbound => ⟨hbound.1, hbound.2.looksLike⟩

/-- The text `let f=fn(x){x};f` and the same with line feeds in it: the functions `f` look the same,
although their tokens stand on different lines. -/
theorem Cursor.layout_irrelevant_line_feeds :
    let text := utf8 "let f=fn(x)\x7bx\x7d;f"
    let text' := utf8 "let f =\n fn( x )\n\x7b\n x\n\x7d;\n\n f"
    let result := Machine.fresh.run 1 (start [] text).parse.program 0
    let result' := Machine.fresh.run 1 (start [] text').parse.program 0
    (start [] text).allTokens.map Token.item = (start [] text').allTokens.map Token.item ∧
      (start [] text).allTokens ≠ (start [] text').allTokens ∧ 0 < 1 ∧
      (result.1 = .error (.tooDeep 1) ∧ result'.1 = .error (.tooDeep 1) ∨
        ∃ value value', result.1 = .ok value ∧ result'.1 = .ok value' ∧ value.LooksLike value') ∧
      Bindings.LookLike (result.2.heap.bindings 0) (result'.2.heap.bindings 0) := by
  have hitems : (start [] (utf8 "let f=fn(x)\x7bx\x7d;f")).allTokens.map Token.item =
      (start [] (utf8 "let f =\n fn( x )\n\x7b\n x\n\x7d;\n\n f")).allTokens.map Token.item := by
    decide +kernel
  have hplaces : (start [] (utf8 "let f=fn(x)\x7bx\x7d;f")).allTokens ≠
      (start [] (utf8 "let f =\n fn( x )\n\x7b\n x\n\x7d;\n\n f")).allTokens := by
    decide +kernel
  intro text text' result result'
  exact ⟨hitems, hplaces, Nat.one_pos,
    (layout_irrelevant [] text [] text' hitems).2.2 1 Nat.one_pos⟩

end TreeWalk
