import TreeWalk.Proofs.Invariant
import TreeWalk.Proofs.Locality
import TreeWalk.Proofs.ParserComplete

/-!
# Splitting a program at a semicolon

A program may be cut in two at a semicolon between its statements.  What stands before it is read as
if nothing followed, what stands behind it as if reading started there; and evaluating the two parts
one after the other is evaluating the whole, as long as the first part does not end the program.

## Main definitions

* `Machine.RunsThrough` — every statement of a program is evaluated.

## Main results

* `Parse.program_append` — **what stands in front of a semicolon is read on its own.**
* `Machine.run_append` — **two programs that are run one after the other are one program.**
* `Cursor.split_at_semicolon` — splitting a program text at a semicolon changes nothing.
-/

namespace TreeWalk

/-! ### Reading the parts -/

namespace Parse

/-- A statement that `first` reads cleanly stands in front of what follows and adds no complaint. -/
theorem collect_of_reads {α : Type} {bound : Nat} {first : Parse α bound} {value : α}
    {middle : List Token} (h : first.Reads value middle)
    (more : (rest : List Token) → rest.length ≤ bound → Parse (List α) rest.length) :
    (first.collect more).result = (more middle h.length_le).result.map (value :: ·) ∧
      (first.collect more).diagnostics = (more middle h.length_le).diagnostics := by
  obtain ⟨result, rest, diagnostics, hle⟩ := first
  obtain ⟨hresult, hrest, hdiagnostics⟩ := h
  cases hresult
  cases hrest
  cases hdiagnostics
  exact ⟨rfl, rfl⟩

/-- **What stands in front of a semicolon is read on its own**, whatever follows it: if `tokens` are
read cleanly and end with a semicolon, `program` reads `tokens ++ more` as their statements and
those of `more`. -/
theorem program_append {finish : Token} {tokens rest : List Token} {nodes : Program}
    (h : (program finish tokens).Reads nodes rest)
    (hlast : ∀ token ∈ tokens.getLast?, token.kind = .semicolon) (finish' : Token)
    (more : List Token) :
    (program finish' (tokens ++ more)).result = (program finish' more).result.map (nodes ++ ·) ∧
      (program finish' (tokens ++ more)).diagnostics = (program finish' more).diagnostics := by
  obtain ⟨length, hlength⟩ : ∃ length, tokens.length = length := ⟨_, rfl⟩
  induction length using Nat.strongRecOn generalizing tokens nodes with
  | _ length ih =>
    cases tokens with
    | nil =>
      obtain ⟨rfl, -⟩ := program_reads_nil.mp h
      exact ⟨Option.map_id'.symm, rfl⟩
    | cons token tail =>
      obtain ⟨node, middle, others, hnode, hothers, rfl⟩ := program_reads_cons.mp h
      have hmiddle := hnode.length_le
      -- what the statement leaves is the end of the tokens
      obtain ⟨d, -, htokens, -, -⟩ := stmt_sound hnode
      have hlast' : ∀ last ∈ middle.getLast?, last.kind = .semicolon := by
        intro last hmem
        refine hlast last ?_
        rw [← htokens, List.getLast?_append, Option.mem_def.mp hmem]
        rfl
      -- the last token of all is a semicolon, so a statement is closed even where nothing is left
      have hrest : middle ≠ [] ∨ ¬ Unstopped (token :: tail) := by
        refine .inr fun hunstopped => ?_
        have hmem := List.getLast?_eq_some_getLast (List.cons_ne_nil token tail)
        exact hunstopped _ hmem (hlast _ hmem)
      have hstmt := stmt_append finish' more hnode hrest
      obtain ⟨hresult, hdiagnostics⟩ :=
        ih middle.length (by rw [← hlength]; exact Nat.lt_succ_of_le hmiddle) hothers hlast' rfl
      obtain ⟨hcollected, hcomplaints⟩ :=
        collect_of_reads hstmt fun rest _ => program finish' rest
      rw [List.cons_append, program]
      constructor
      · refine hcollected.trans ?_
        rw [hresult, Option.map_map]
        rfl
      · exact hcomplaints.trans hdiagnostics

end Parse

/-! ### Running the parts -/

/-- Statements `first` that are evaluated up to the last one, with the statements `second` behind
them: these start where the first ones end. -/
theorem evalStmts_append {call : CallMeaning} {first : List Node} {id : ScopeId}
    {last value : Value} {machine after : Machine}
    (h : evalStmts call first id last machine = (.ok value, after))
    (hvalue : ¬ value.isSignal) (second : List Node) :
    evalStmts call (first ++ second) id last machine = evalStmts call second id value after := by
  induction first generalizing last machine with
  | nil =>
    rw [evalStmts] at h
    obtain ⟨hlast, rfl⟩ := Prod.mk.inj h
    rw [← Except.ok.inj hlast]
    rfl
  | cons node more ih =>
    rw [evalStmts, run_bind] at h
    rw [List.cons_append, evalStmts, run_bind]
    cases hnode : evalNode call node id machine with
    | mk ending middle =>
      rw [hnode] at h
      cases ending with
      | error reason => exact nomatch h
      | ok result =>
        by_cases hsignal : result.isSignal
        · -- the statements would have ended here, with a signal
          simp only [if_pos hsignal] at h
          obtain ⟨hresult, -⟩ := Prod.mk.inj h
          exact absurd (Except.ok.inj hresult ▸ hsignal) hvalue
        · simp only [if_neg hsignal] at h ⊢
          exact ih h

/-- Evaluation closes every call that it opens, so `depth` is `Stable`. -/
theorem depth_stable :
    Stable (fun _ => True) (fun depth machine => machine.depth = depth) fun _ => True where
  closed := Value.closed_true
  fresh _ := trivial
  read _ _ _ := trivial
  bind _ _ _ h := h
  make _ _ _ h := ⟨h, trivial⟩
  push _ h := h
  opened h := congrArg (· + 1) h
  shut h := congrArg (· - 1) h

namespace Machine

/-- Every statement of `program` is evaluated: none of them ends with an error or returns, and the
program is not given up. -/
def RunsThrough (machine : Machine) (limit : Nat) (program : Program) (id : ScopeId) : Prop :=
  ∃ value, (evalStmts (call limit (room limit)) program id .nothing machine.idle).1 = .ok value ∧
    ¬ value.isSignal

/-- **Two programs that are run one after the other are one program**, if the first one
`RunsThrough`. -/
theorem run_append {machine : Machine} {limit : Nat} {first second : Program} {id : ScopeId}
    (h : machine.RunsThrough limit first id) (hsecond : second ≠ []) :
    machine.run limit (first ++ second) id =
      (machine.run limit first id).2.run limit second id := by
  obtain ⟨value, hending, hvalue⟩ := h
  obtain ⟨after, hfirst⟩ : ∃ after,
      evalStmts (call limit (room limit)) first id .nothing machine.idle = (.ok value, after) :=
    ⟨_, Prod.ext hending rfl⟩
  have hevaluate : machine.idle.evaluate limit first id = (.ok value.arrived, after) := by
    rw [evaluate, evalProgram, run_bind, hfirst]
    rfl
  have hdepth : after.depth = 0 := by
    have hkept : (machine.idle.evaluate limit first id).2.depth = 0 :=
      (depth_stable.evaluate_keeps limit 0 trivial first machine.idle rfl).1
    rwa [hevaluate] at hkept
  have hidle : after.idle = after := by
    rw [idle, ← hdepth]
  -- the second part does not see what the first one ended with, only that it did not end it
  have hwhole : machine.idle.evaluate limit (first ++ second) id =
      after.evaluate limit second id := by
    obtain ⟨node, more, rfl⟩ := List.exists_cons_of_ne_nil hsecond
    rw [evaluate, evaluate, evalProgram, evalProgram, run_bind, run_bind,
      evalStmts_append hfirst hvalue, evalStmts, evalStmts]
  rw [run, hwhole, run, run, hevaluate, hidle]

end Machine

/-! ### Splitting -/

/-- **Splitting a program at a semicolon changes nothing.**  If a text that is read without
complaints ends with a semicolon, then with more text behind it, its statements are read as before,
followed by those of the other text, with the same complaints as if reading started there.  And if
every statement of the first part is evaluated, and the second part has statements, then running the
whole ends in the same way, and leaves the same behind, as running the parts one after the other. -/
theorem Cursor.split_at_semicolon (cursor : Cursor) (more : Bytes) (hzero : 0 ∉ cursor.rest)
    (hclean : cursor.parse.diagnostics = []) {last : Token}
    (hlast : cursor.tokens.getLast? = some last) (hstop : last.kind = .semicolon) :
    let first := cursor.parse
    let second := (cursor.behind more).parse
    let whole := (cursor.followedBy more).parse
    whole.program = first.program ++ second.program ∧ whole.diagnostics = second.diagnostics ∧
      ∀ (limit : Nat) (machine : Machine) (id : ScopeId),
        machine.RunsThrough limit first.program id → second.program ≠ [] →
        machine.run limit whole.program id =
          (machine.run limit first.program id).2.run limit second.program id := by
  intro first second whole
  have hsemicolon : ∀ token ∈ cursor.tokens.getLast?, token.kind = .semicolon := by
    rintro token htoken
    rw [hlast] at htoken
    exact Option.some.inj htoken ▸ hstop
  -- the tokens of the whole are those of the parts, and so are the statements
  obtain ⟨htokens, hfinish⟩ := scan_followedBy hzero hsemicolon more
  obtain ⟨hresult, hdiagnostics⟩ := Parse.program_append (parse_reads hclean) hsemicolon
    (cursor.behind more).finish.endToken (cursor.behind more).tokens
  rw [← htokens, ← hfinish] at hresult hdiagnostics
  obtain ⟨nodes, hnodes⟩ := Parse.exists_program_result (cursor.followedBy more).finish.endToken
    (cursor.behind more).tokens
  have hsecond : second.program = nodes := by
    show Option.getD _ [] = nodes
    rw [← hfinish, hnodes, Option.getD_some]
  have hwhole : whole.program = first.program ++ second.program := by
    show Option.getD _ [] = _
    rw [hresult, hnodes, hsecond, Option.map_some, Option.getD_some]
  refine ⟨hwhole, ?_, fun limit machine id hthrough hmore => ?_⟩
  · show Parse.diagnostics _ = Parse.diagnostics _
    rw [hdiagnostics, hfinish]
  · rw [hwhole]
    exact Machine.run_append hthrough hmore

/-- Behind `let x = "a";` the text `(x)` is a statement of its own, and no call of `"a"`. -/
theorem Cursor.split_at_semicolon_group :
    let cursor := start [] (utf8 "let x = \"a\";")
    let more := utf8 "(x)"
    let first := cursor.parse
    let second := (cursor.behind more).parse
    let whole := (cursor.followedBy more).parse
    0 ∉ cursor.rest ∧ first.diagnostics = [] ∧
      cursor.tokens.getLast? = some ⟨.semicolon, utf8 ";", ⟨[], 1, 12⟩⟩ ∧
      Machine.fresh.RunsThrough 1 first.program 0 ∧ second.program ≠ [] ∧
      whole.program = first.program ++ second.program ∧
      Machine.fresh.run 1 whole.program 0 =
        (Machine.fresh.run 1 first.program 0).2.run 1 second.program 0 := by
  intro cursor more first second whole
  have hzero : 0 ∉ cursor.rest := by decide
  have hclean : cursor.parse.diagnostics = [] := by decide +kernel
  have hlast : cursor.tokens.getLast? = some ⟨.semicolon, utf8 ";", ⟨[], 1, 12⟩⟩ := by
    decide +kernel
  have hmore : second.program ≠ [] := by
    have hlength : second.program.length = 1 := by decide +kernel
    exact List.ne_nil_of_length_eq_add_one hlength
  have hthrough : Machine.fresh.RunsThrough 1 first.program 0 := by
    -- values hold numbers and cannot be decided, but whether one is a signal can
    have hending : (match (evalStmts (call 1 (room 1)) first.program 0 .nothing
          Machine.fresh.idle).1 with
        | .ok value => !value.isSignal
        | .error _ => false) = true := by
      decide +kernel
    rw [Machine.RunsThrough]
    split at hending
    · next value hvalue => exact ⟨value, hvalue, by simpa using hending⟩
    · cases hending
  obtain ⟨hwhole, -, hrun⟩ := split_at_semicolon cursor more hzero hclean hlast rfl
  exact ⟨hzero, hclean, hlast, hthrough, hmore, hwhole, hrun 1 Machine.fresh 0 hthrough hmore⟩

end TreeWalk
