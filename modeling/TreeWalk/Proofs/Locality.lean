import TreeWalk.Proofs.Layout
import TreeWalk.Proofs.ParserSound

/-!
# Reading does not look ahead

A token ends where the byte behind it does not continue it, and a construct ends where the token
behind it does not.  So what was read with something left over is read in the same way however much
is added at the end.  Where nothing is left over this holds only for what nothing could continue: a
semicolon, and a statement that a semicolon closes.

## Main definitions

* `Cursor.followedBy`, `Cursor.behind` — the same place in a longer text, and the place behind it.
* `Unstopped` — tokens that do not end with a semicolon.

## Main results

* `Cursor.scan_followedBy` — the tokens of a text that ends with a semicolon, and of what follows.
* `Grammar.Phrase.unstopped` — no expression ends with a semicolon.
* `Parse.nextExpr_append`, `Parse.stmt_append` — **what is read does not depend on what comes after
  the next token.**
-/

namespace TreeWalk

open Spelling

/-! ### Tokens in a longer text -/

/-- If `Quoted.read` leaves something, it reads the same in a longer text, and leaves what comes
behind, too. -/
theorem Quoted.read_append {text : Bytes} (h : (Quoted.read text).rest ≠ []) (more : Bytes) :
    Quoted.read (text ++ more) =
      { Quoted.read text with rest := (Quoted.read text).rest ++ more } := by
  fun_induction Quoted.read text with
  | case1 => exact absurd rfl h
  | case2 rest =>
    rw [List.cons_append, Quoted.read.eq_def]
    exact if_pos rfl
  | case3 rest hzero =>
    rw [List.cons_append, Quoted.read.eq_def]
    exact (if_neg hzero).trans (if_pos rfl)
  | case4 => exact absurd rfl h
  | case5 e rest content hescape hzero hquote ih =>
    simp [Quoted.read, hescape, hzero, hquote, ih h, push]
  | case6 e rest hescape hzero hquote => simp [Quoted.read, hescape, hzero, hquote]
  | case7 b rest hzero hquote hback ih =>
    rw [List.cons_append, Quoted.read.eq_def]
    simp only [if_neg hzero, if_neg hquote, if_neg hback, ih h, push]

namespace Reading

/-- A semicolon is a sign of one byte: where `Kind.sign?` knows none, `read` gives no semicolon. -/
theorem kind_read_ne_semicolon {b : UInt8} (h : Kind.sign? b = none) (rest : Bytes) :
    (read b rest).kind ≠ .semicolon := by
  have hkeyword (word : Bytes) : (Kind.keyword? word).getD .ident ≠ .semicolon := by
    cases hword : Kind.keyword? word with
    | none => decide
    | some kind =>
      have hkinds : ∀ entry ∈ reserved, entry.1 ≠ .semicolon := by decide
      exact hkinds _ (keyword?_eq_some_iff.mp hword)
  rw [read, h]
  simp only [ofQuoted, beforeEqual, plain]
  repeat' split
  all_goals simp [hkeyword]

/-- A run of bytes of which `p` holds, with something behind it, is the same in a longer text. -/
theorem takeWhile_dropWhile_append {p : UInt8 → Bool} {text : Bytes} (h : text.dropWhile p ≠ [])
    (more : Bytes) : (text ++ more).takeWhile p = text.takeWhile p ∧
      (text ++ more).dropWhile p = text.dropWhile p ++ more := by
  have hrun : ∀ b ∈ text.takeWhile p, p b := List.all_eq_true.mp List.all_takeWhile
  have hafter : ∀ b ∈ (text.dropWhile p ++ more).head?, ¬ p b := by
    rw [List.head?_append_of_ne_nil _ h]
    exact not_of_mem_head?_dropWhile
  have hboth := takeWhile_dropWhile_run hrun hafter
  rwa [← List.append_assoc, List.takeWhile_append_dropWhile] at hboth

theorem ofQuoted_append {b : UInt8} {text : Bytes} (h : (ofQuoted b (Quoted.read text)).rest ≠ [])
    (more : Bytes) : ofQuoted b (Quoted.read (text ++ more)) =
      { ofQuoted b (Quoted.read text) with
        rest := (ofQuoted b (Quoted.read text)).rest ++ more } := by
  have hrest : (ofQuoted b (Quoted.read text)).rest = (Quoted.read text).rest := by
    rw [ofQuoted]
    split <;> rfl
  rw [hrest] at h ⊢
  rw [Quoted.read_append h, ofQuoted, ofQuoted]
  dsimp only
  split <;> rfl

theorem beforeEqual_append {short long : Kind} {b : UInt8} {rest : Bytes}
    (h : (beforeEqual short long b rest).rest ≠ []) (more : Bytes) :
    beforeEqual short long b (rest ++ more) =
      { beforeEqual short long b rest with
        rest := (beforeEqual short long b rest).rest ++ more } := by
  cases rest with
  | nil => exact absurd rfl h
  | cons e rest =>
    simp only [List.cons_append, beforeEqual]
    split <;> rfl

/-- A token that leaves something, or that is a semicolon, which nothing could continue, is the same
in a longer text. -/
theorem read_append {b : UInt8} {rest : Bytes}
    (h : (read b rest).rest ≠ [] ∨ (read b rest).kind = .semicolon) (more : Bytes) :
    -- the cases of `read`, in its order
    read b (rest ++ more) = { read b rest with rest := (read b rest).rest ++ more } := by
  cases hsign : Kind.sign? b with
  | some kind => simp only [read, hsign, plain]
  | none =>
    have hrest := h.resolve_right (kind_read_ne_semicolon hsign rest)
    simp only [read, hsign] at hrest ⊢
    by_cases hquote : b = ascii '"'
    · simp only [if_pos hquote] at hrest ⊢
      exact ofQuoted_append hrest more
    by_cases hbang : b = ascii '!'
    · simp only [if_neg hquote, if_pos hbang] at hrest ⊢
      exact beforeEqual_append hrest more
    by_cases hequal : b = ascii '='
    · simp only [if_neg hquote, if_neg hbang, if_pos hequal] at hrest ⊢
      exact beforeEqual_append hrest more
    simp only [if_neg hquote, if_neg hbang, if_neg hequal] at hrest ⊢
    by_cases hletter : isLetter b
    · simp only [if_pos hletter, plain] at hrest ⊢
      obtain ⟨htake, hdrop⟩ := takeWhile_dropWhile_append hrest more
      rw [htake, hdrop]
    by_cases hdigit : isDigit b
    · simp only [if_neg hletter, if_pos hdigit, plain] at hrest ⊢
      obtain ⟨htake, hdrop⟩ := takeWhile_dropWhile_append hrest more
      rw [htake, hdrop]
    · simp only [if_neg hletter, if_neg hdigit, plain]

end Reading

namespace Cursor

/-- The same place in a longer text: the text of `cursor`, followed by `more`. -/
def followedBy (cursor : Cursor) (more : Bytes) : Cursor := ⟨cursor.rest ++ more, cursor.pos⟩

/-- The place behind the text of `cursor`, where the text `more` starts. -/
def behind (cursor : Cursor) (more : Bytes) : Cursor :=
  ⟨more, cursor.pos.advanceOver cursor.rest⟩

variable {cursor other after : Cursor} {token : Token}

/-- Blanks make no difference: two places with the same `skipBlanks` have the same tokens and the
same end. -/
theorem scan_congr (h : cursor.skipBlanks = other.skipBlanks) :
    cursor.tokens = other.tokens ∧ cursor.finish = other.finish := by
  have hnext : cursor.next? = other.next? := by rw [next?, next?, h]
  cases hother : other.next? with
  | none =>
    obtain ⟨htokens, hfinish⟩ := scan_of_none (hnext.trans hother)
    obtain ⟨htokens', hfinish'⟩ := scan_of_none hother
    exact ⟨htokens.trans htokens'.symm, hfinish.trans (h.trans hfinish'.symm)⟩
  | some step =>
    obtain ⟨htokens, hfinish⟩ := scan_of_some (hnext.trans hother)
    obtain ⟨htokens', hfinish'⟩ := scan_of_some hother
    exact ⟨htokens.trans htokens'.symm, hfinish.trans hfinish'.symm⟩

/-- Behind blanks with something behind them, `followedBy` and `skipBlanks` can be exchanged. -/
theorem skipBlanks_followedBy (h : cursor.skipBlanks.rest ≠ []) (more : Bytes) :
    (cursor.followedBy more).skipBlanks = cursor.skipBlanks.followedBy more := by
  obtain ⟨gap, hgap, hrest, hpos⟩ := cursor.exists_gap
  have hhead : ∀ b ∈ (cursor.skipBlanks.rest ++ more).head?, b ∉ blanks := by
    rw [List.head?_append_of_ne_nil _ h]
    exact cursor.not_blank_of_mem_head?_skipBlanks
  have hmore : (cursor.followedBy more).rest = gap ++ (cursor.skipBlanks.rest ++ more) := by
    rw [← List.append_assoc, ← hrest]
    rfl
  rw [skipBlanks_rest hgap hhead hmore]
  exact congrArg (Cursor.mk _) hpos.symm

/-- If there are only blanks, `skipBlanks` goes on to those of the text `more` that follows. -/
theorem skipBlanks_followedBy_of_nil (h : cursor.skipBlanks.rest = []) (more : Bytes) :
    (cursor.followedBy more).skipBlanks = (cursor.behind more).skipBlanks := by
  obtain ⟨gap, hgap, hrest, -⟩ := cursor.exists_gap
  rw [h, List.append_nil] at hrest
  obtain ⟨gap', hgap', hrest', hpos'⟩ := (cursor.behind more).exists_gap
  have hmore : (cursor.followedBy more).rest =
      gap ++ gap' ++ (cursor.behind more).skipBlanks.rest := by
    rw [List.append_assoc, ← hrest', followedBy, hrest]
    rfl
  have hboth : IsGap (gap ++ gap') := fun b hb =>
    (List.mem_append.mp hb).elim (hgap b) (hgap' b)
  rw [skipBlanks_rest hboth (cursor.behind more).not_blank_of_mem_head?_skipBlanks hmore,
    Position.advanceOver_append]
  rw [← hrest]
  exact congrArg (Cursor.mk _) hpos'.symm

/-- A token that leaves something, or that is a semicolon, is what `next?` finds in a longer text,
too. -/
theorem next?_followedBy (h : cursor.next? = some (token, after))
    (hafter : after.rest ≠ [] ∨ token.kind = .semicolon) (more : Bytes) :
    (cursor.followedBy more).next? = some (token, after.followedBy more) := by
  obtain ⟨b, rest, hrest, hzero, rfl, rfl⟩ := next?_eq_some_iff.mp h
  have hskip := skipBlanks_followedBy (by rw [hrest]; exact List.cons_ne_nil b rest) more
  have hread := Reading.read_append hafter more
  refine next?_eq_some_iff.mpr ⟨b, rest ++ more, ?_, hzero, ?_, ?_⟩
  · rw [hskip, followedBy, hrest, List.cons_append]
  · rw [hread, hskip]
    rfl
  · rw [hread, hskip]
    rfl

theorem behind_of_next? (h : cursor.next? = some (token, after)) (more : Bytes) :
    after.behind more = cursor.behind more := by
  obtain ⟨gap, -, hrest, hpos⟩ := cursor.exists_gap
  obtain ⟨b, rest, hskip, -, -, rfl⟩ := next?_eq_some_iff.mp h
  rw [behind, behind, hrest, hskip, hpos, Position.advanceOver_append,
    ← Position.advanceOver_append, Reading.read_raw_append_rest]

/-- **The tokens of a text that ends with a semicolon do not depend on what follows**, and scanning
goes on behind it (`Cursor.behind`) as if it started there. -/
theorem scan_followedBy (hzero : 0 ∉ cursor.rest)
    (hlast : ∀ token ∈ cursor.tokens.getLast?, token.kind = .semicolon) (more : Bytes) :
    (cursor.followedBy more).tokens = cursor.tokens ++ (cursor.behind more).tokens ∧
      (cursor.followedBy more).finish = (cursor.behind more).finish := by
  induction cursor using scan.induct with
  | case1 cursor hnext =>
    have hend : cursor.skipBlanks.rest = [] := by
      rcases next?_eq_none_iff.mp hnext with hnil | ⟨others, hnul⟩
      · exact hnil
      · obtain ⟨gap, -, hrest, -⟩ := cursor.exists_gap
        exact absurd (by rw [hrest, hnul]; simp) hzero
    rw [(scan_of_none hnext).1]
    exact scan_congr (skipBlanks_followedBy_of_nil hend more)
  | case2 cursor token after hnext _ _ _ _ ih =>
    obtain ⟨htokens, -⟩ := scan_of_some hnext
    obtain ⟨gap, -, hrest, -⟩ := cursor.exists_gap
    obtain ⟨b, rest, hskip, -, -, hafter⟩ := next?_eq_some_iff.mp hnext
    have hzero' : 0 ∉ after.rest := by
      intro hmem
      refine hzero ?_
      rw [hrest, hskip, ← Reading.read_raw_append_rest]
      rw [hafter] at hmem
      exact List.mem_append_right _ (List.mem_append_right _ hmem)
    -- the last token is a semicolon, and every other one leaves something
    have hleft : after.rest ≠ [] ∨ token.kind = .semicolon := by
      cases hothers : after.tokens with
      | nil => exact .inr (hlast token (by rw [htokens, hothers]; rfl))
      | cons first others =>
        refine .inl fun hnil => ?_
        have hdone : after.next? = none := next?_eq_none_iff.mpr (by
          rw [skipBlanks, hnil]
          exact .inl rfl)
        rw [(scan_of_none hdone).1] at hothers
        exact absurd hothers (by simp)
    have hlast' : ∀ token ∈ after.tokens.getLast?, token.kind = .semicolon := by
      intro last hmem
      refine hlast last ?_
      rw [htokens, List.getLast?_cons, Option.mem_def.mp hmem]
      rfl
    obtain ⟨htokens', hfinish'⟩ := scan_of_some (next?_followedBy hnext hleft more)
    obtain ⟨ihtokens, ihfinish⟩ := ih hzero' hlast'
    rw [behind_of_next? hnext] at ihtokens ihfinish
    rw [htokens', hfinish', htokens, ihtokens]
    exact ⟨rfl, ihfinish⟩

end Cursor

/-! ### No expression ends with a semicolon -/

/-- The last of `tokens`, if there is one, is no semicolon. -/
def Unstopped (tokens : List Token) : Prop := ∀ token ∈ tokens.getLast?, token.kind ≠ .semicolon

namespace Unstopped

theorem nil : Unstopped [] := fun _ h => nomatch h

theorem append {first second : List Token} (hfirst : Unstopped first) (hsecond : Unstopped second) :
    Unstopped (first ++ second) := by
  intro token htoken
  rw [List.getLast?_append] at htoken
  cases hlast : second.getLast? with
  | none => exact hfirst token (by rwa [hlast] at htoken)
  | some last => exact hsecond token (by rwa [hlast] at htoken ⊢)

theorem cons {token : Token} {tokens : List Token} (htoken : token.kind ≠ .semicolon)
    (htokens : Unstopped tokens) : Unstopped (token :: tokens) := by
  have hfirst : Unstopped [token] := fun last hlast => Option.some.inj hlast ▸ htoken
  exact hfirst.append htokens

/-- Only what stands last counts: `Unstopped` does not look at `first`. -/
theorem append_cons {token : Token} {tokens : List Token} (h : Unstopped (token :: tokens))
    (first : List Token) : Unstopped (first ++ token :: tokens) := by
  intro last hlast
  rw [List.getLast?_append, List.getLast?_cons] at hlast
  exact h last (by rwa [List.getLast?_cons])

end Unstopped

open Grammar

theorem Grammar.Terminal.unstopped_cons {kind : Kind} (token : Terminal [kind])
    {tokens : List Token} (htokens : Unstopped tokens) (h : kind ≠ .semicolon) :
    Unstopped (token.1 :: tokens) := by
  refine .cons ?_ htokens
  rw [token.kind_eq]
  exact h

/-- Whether a symbol has derivations that end with a semicolon: only `stmts` and `stmt` do. -/
def Grammar.Symbol.mayStop : Symbol → Bool
  | stmts | stmt => true
  | _ => false

/-- **No expression ends with a semicolon**, and neither does anything else but statements: by
induction on `d`, the tokens of a phrase whose symbol is not `mayStop` are `Unstopped`. -/
theorem Grammar.Phrase.unstopped {s : Symbol} (d : Phrase s) (h : s.mayStop = false) :
    Unstopped d.tokens := by
  -- each production ends with a token of its own, or with a part that is no statement either
  induction d with
  | done | next | stmt => exact nomatch h
  | letClause word name sign value ih =>
    exact word.unstopped_cons (name.unstopped_cons (sign.unstopped_cons (ih rfl) (by decide))
      (by decide)) (by decide)
  | returnClause word value ih => exact word.unstopped_cons (ih rfl) (by decide)
  | exprClause value ih => exact ih rfl
  | block opening body closing =>
    have hclosing := closing.unstopped_cons .nil (by decide)
    exact opening.unstopped_cons (hclosing.append_cons _) (by decide)
  | elseBlock word body ih => exact word.unstopped_cons (ih rfl) (by decide)
  | binary _ first more ihfirst ihmore =>
    exact (ihfirst rfl).append (ihmore rfl)
  | @chainNext level op right more ihright ihmore =>
    refine .cons (fun hkind => ?_) ((ihright rfl).append (ihmore rfl))
    have hop := op.2
    rw [hkind] at hop
    cases level <;> exact absurd hop (by decide)
  | prefixed op right ih =>
    refine .cons (fun hkind => ?_) (ih rfl)
    have hop := op.2
    rw [hkind] at hop
    exact absurd hop (by decide)
  | unprefixed inner ih => exact ih rfl
  | primary atom calls ihatom ihcalls => exact (ihatom rfl).append (ihcalls rfl)
  | nextCall opening args closing more _ ihmore =>
    exact opening.unstopped_cons
      ((closing.unstopped_cons (ihmore rfl) (by decide)).append_cons _) (by decide)
  | ident token | number token | text token | yesWord token | noWord token =>
    exact token.unstopped_cons .nil (by decide)
  | group opening inner closing =>
    have hclosing := closing.unstopped_cons .nil (by decide)
    exact opening.unstopped_cons (hclosing.append_cons _) (by decide)
  | ifElse word opening cond closing yes no _ ihyes ihno =>
    refine word.unstopped_cons (opening.unstopped_cons (.append_cons ?_ _) (by decide)) (by decide)
    exact closing.unstopped_cons ((ihyes rfl).append (ihno rfl)) (by decide)
  | function word opening params closing body ih =>
    refine word.unstopped_cons (opening.unstopped_cons (.append_cons ?_ _) (by decide)) (by decide)
    exact closing.unstopped_cons (ih rfl) (by decide)
  | someArgs first more ihfirst ihmore => exact (ihfirst rfl).append (ihmore rfl)
  | nextArg comma value more ihvalue ihmore =>
    exact comma.unstopped_cons ((ihvalue rfl).append (ihmore rfl)) (by decide)
  | noElse | chainEnd | noCall | noArgs | lastArg => exact .nil

/-! ### Constructs in front of more tokens -/

namespace Parse

section

variable {finish : Token} {tokens rest : List Token} {node : Node} {floor : Precedence}

/-- Where something is left, something was given: `Reads` leaves a part of `tokens`. -/
theorem Reads.ne_nil {α : Type} {parse : Parse α tokens.length} {value : α}
    (h : parse.Reads value rest) (hrest : rest ≠ []) : tokens ≠ [] :=
  List.length_pos_iff.mp (Nat.lt_of_lt_of_le (List.length_pos_iff.mpr hrest) h.length_le)

theorem nextRank_append (h : tokens ≠ []) (more : List Token) :
    nextRank (tokens ++ more) = nextRank tokens := by
  cases tokens with
  | nil => exact absurd rfl h
  | cons => rfl

theorem dropSemicolon_append (h : tokens ≠ []) (more : List Token) :
    dropSemicolon (tokens ++ more) = dropSemicolon tokens ++ more := by
  cases tokens with
  | nil => exact absurd rfl h
  | cons token tokens =>
    rw [List.cons_append, dropSemicolon, dropSemicolon]
    split <;> rfl

theorem params_append {names : List Ident} (h : (params finish tokens).Reads names rest)
    (finish' : Token) (more : List Token) :
    (params finish' (tokens ++ more)).Reads names (rest ++ more) := by
  obtain ⟨given, closing, rfl, hnames⟩ := params_reads.mp h
  exact params_reads.mpr ⟨given, closing, by simp, hnames⟩

/-- What `nextExpr` leaves behind the expression of a statement is not empty, if something is left
behind a semicolon or the tokens end with one: the tokens of the expression are `Unstopped`. -/
theorem middle_ne_nil {middle : List Token}
    (h : (nextExpr finish floor tokens).Reads node middle)
    (hrest : dropSemicolon middle ≠ [] ∨ ¬ Unstopped tokens) : middle ≠ [] := by
  rintro rfl
  rcases hrest with hrest | hstop
  · exact hrest rfl
  · obtain ⟨d, -, htokens, -, -⟩ := nextExpr_sound h
    rw [List.append_nil] at htokens
    exact hstop (htokens ▸ d.unstopped rfl)

end

section

variable {finish : Token} (finish' : Token) (more : List Token)

mutual

/-- **A statement is read in the same way whatever follows**, if something is left behind it or a
semicolon closes it: what `stmt` reads in `tokens`, it reads in `tokens ++ more`, and it leaves
`more` behind the rest. -/
theorem stmt_append {token : Token} {tokens rest : List Token} {node : Node}
    (h : (stmt finish token tokens).Reads node rest)
    (hrest : rest ≠ [] ∨ ¬ Unstopped (token :: tokens)) :
    (stmt finish' token (tokens ++ more)).Reads node (rest ++ more) := by
  by_cases hlet : token.kind = .letWord
  · obtain ⟨name, sign, others, value, middle, htokens, hname, hsign, hvalue, rfl, rfl⟩ :=
      (stmt_reads_let hlet).mp h
    have hlength : tokens.length = others.length + 2 := by rw [htokens]; rfl
    -- neither `let` nor the name nor the sign is a semicolon, so the expression is stopped, too
    have hmiddle := middle_ne_nil hvalue (hrest.imp_right fun hstop hothers => hstop (by
      rw [htokens]
      exact .cons (by rw [hlet]; decide) (.cons (by rw [hname]; decide)
        (.cons (by rw [hsign]; decide) hothers))))
    exact (stmt_reads_let hlet).mpr ⟨name, sign, others ++ more, value, middle ++ more,
      by rw [htokens]; rfl, hname, hsign, nextExpr_append hvalue hmiddle, rfl,
      dropSemicolon_append hmiddle more⟩
  by_cases hreturn : token.kind = .returnWord
  · obtain ⟨value, middle, hvalue, rfl, rfl⟩ := (stmt_reads_return hreturn).mp h
    have hmiddle := middle_ne_nil hvalue (hrest.imp_right fun hstop htokens =>
      hstop (.cons (by rw [hreturn]; decide) htokens))
    exact (stmt_reads_return hreturn).mpr ⟨value, middle ++ more,
      nextExpr_append hvalue hmiddle, rfl, dropSemicolon_append hmiddle more⟩
  · obtain ⟨value, middle, hvalue, rfl, rfl⟩ := (stmt_reads_expr hlet hreturn).mp h
    have hmiddle := middle_ne_nil (nextExpr_reads_cons.mpr hvalue) hrest
    exact (stmt_reads_expr hlet hreturn).mpr ⟨value, middle ++ more,
      expr_append hvalue hmiddle, rfl, dropSemicolon_append hmiddle more⟩
termination_by 5 * tokens.length + 4
decreasing_by all_goals omega

/-- The same for a block, which its closing brace ends, so that nothing need be left. -/
theorem block_append {tokens rest : List Token} {nodes : List Node}
    (h : (block finish tokens).Reads nodes rest) :
    (block finish' (tokens ++ more)).Reads nodes (rest ++ more) := by
  cases htokens : tokens with
  | nil => exact absurd (htokens ▸ h) block_reads_nil
  | cons token others =>
    have hlength : tokens.length = others.length + 1 := by rw [htokens]; rfl
    rw [htokens] at h
    rw [List.cons_append]
    by_cases hkind : token.kind = .closeBrace
    · obtain ⟨rfl, rfl⟩ := (block_reads_close hkind).mp h
      exact (block_reads_close hkind).mpr ⟨rfl, rfl⟩
    · obtain ⟨node, middle, stmts, hnode, hstmts, rfl⟩ := (block_reads_next hkind).mp h
      have hlength' := hnode.length_le
      -- the closing brace is still to come
      have hmiddle : middle ≠ [] := by
        rintro rfl
        exact absurd hstmts block_reads_nil
      exact (block_reads_next hkind).mpr ⟨node, middle ++ more, stmts,
        stmt_append hnode (.inl hmiddle), block_append hstmts, rfl⟩
termination_by 5 * tokens.length
decreasing_by all_goals omega

/-- **An expression is read in the same way however much stands behind the next token**: something
has to be left, since `climb` looks at the next operator. -/
theorem nextExpr_append {floor : Precedence} {tokens rest : List Token} {node : Node}
    (h : (nextExpr finish floor tokens).Reads node rest) (hrest : rest ≠ []) :
    (nextExpr finish' floor (tokens ++ more)).Reads node (rest ++ more) := by
  cases htokens : tokens with
  | nil => exact absurd (htokens ▸ h) nextExpr_reads_nil
  | cons token others =>
    have hlength : tokens.length = others.length + 1 := by rw [htokens]; rfl
    rw [htokens, nextExpr_reads_cons] at h
    rw [List.cons_append, nextExpr_reads_cons]
    exact expr_append h hrest
termination_by 5 * tokens.length
decreasing_by all_goals omega

theorem expr_append {floor : Precedence} {token : Token} {tokens rest : List Token} {node : Node}
    (h : (expr finish floor token tokens).Reads node rest) (hrest : rest ≠ []) :
    (expr finish' floor token (tokens ++ more)).Reads node (rest ++ more) := by
  obtain ⟨left, middle, hleft, hclimb⟩ := expr_reads.mp h
  have hlength := hleft.length_le
  -- the operand sees the same next token, since the climb behind it leaves something
  have hmiddle := hclimb.ne_nil hrest
  exact expr_reads.mpr ⟨left, middle ++ more, operand_append hleft hmiddle,
    climb_append hclimb hrest⟩
termination_by 5 * tokens.length + 3
decreasing_by all_goals omega

theorem operand_append {token : Token} {tokens rest : List Token} {node : Node}
    (h : (operand finish token tokens).Reads node rest) (hrest : rest ≠ []) :
    (operand finish' token (tokens ++ more)).Reads node (rest ++ more) := by
  have hkinds := kind_of_operand_reads h
  simp only [List.mem_cons, List.not_mem_nil, or_false, ← or_assoc] at hkinds
  rcases hkinds with (((((((hkind | hkind) | hkind) | hkind) | hkind) | hkind) | hkind) | hkind) |
    hkind
  · obtain ⟨right, hright, rfl⟩ := (operand_reads_unary hkind).mp h
    exact (operand_reads_unary hkind).mpr ⟨right, nextExpr_append hright hrest, rfl⟩
  · obtain ⟨rfl, rfl⟩ := (operand_reads_ident hkind).mp h
    exact (operand_reads_ident hkind).mpr ⟨rfl, rfl⟩
  · obtain ⟨value, hvalue, rfl, rfl⟩ := (operand_reads_int hkind).mp h
    exact (operand_reads_int hkind).mpr ⟨value, hvalue, rfl, rfl⟩
  · obtain ⟨rfl, rfl⟩ := (operand_reads_string hkind).mp h
    exact (operand_reads_string hkind).mpr ⟨rfl, rfl⟩
  · obtain ⟨rfl, rfl⟩ := (operand_reads_true hkind).mp h
    exact (operand_reads_true hkind).mpr ⟨rfl, rfl⟩
  · obtain ⟨rfl, rfl⟩ := (operand_reads_false hkind).mp h
    exact (operand_reads_false hkind).mpr ⟨rfl, rfl⟩
  · obtain ⟨closing, hinner, hclosing⟩ := (operand_reads_group hkind).mp h
    exact (operand_reads_group hkind).mpr
      ⟨closing, nextExpr_append hinner (List.cons_ne_nil _ _), hclosing⟩
  · obtain ⟨opening, others, cond, closing, brace, body, yes, middle, no, htokens, hopening, hcond,
      hclosing, hbrace, hyes, hno, rfl⟩ := (operand_reads_if hkind).mp h
    have hlength : tokens.length = others.length + 1 := by rw [htokens]; rfl
    have hbody : body.length + 2 ≤ others.length := hcond.length_le
    have hmiddle := hyes.length_le
    refine (operand_reads_if hkind).mpr ⟨opening, others ++ more, cond, closing, brace,
      body ++ more, yes, middle ++ more, no, by rw [htokens]; rfl, hopening, ?_, hclosing, hbrace,
      ?_, ?_, rfl⟩
    -- the condition has its closing parenthesis behind it, and the block ends by its own brace
    · exact nextExpr_append hcond (List.cons_ne_nil _ _)
    · exact block_append hyes
    · exact alternative_append hno hrest
  · obtain ⟨opening, others, names, brace, body, stmts, htokens, hopening, hnames, hbrace, hstmts,
      rfl⟩ := (operand_reads_fn hkind).mp h
    have hlength : tokens.length = others.length + 1 := by rw [htokens]; rfl
    have hbody : body.length + 1 ≤ others.length := hnames.length_le
    refine (operand_reads_fn hkind).mpr ⟨opening, others ++ more, names, brace, body ++ more, stmts,
      by rw [htokens]; rfl, hopening, ?_, hbrace, ?_, rfl⟩
    · exact params_append hnames finish' more
    · exact block_append hstmts
termination_by 5 * tokens.length + 2
decreasing_by all_goals omega

theorem alternative_append {tokens rest : List Token} {node : Node}
    (h : (alternative finish tokens).Reads node rest) (hrest : rest ≠ []) :
    (alternative finish' (tokens ++ more)).Reads node (rest ++ more) := by
  have htokens := h.ne_nil hrest
  by_cases hnext : ∀ token ∈ tokens.head?, token.kind ≠ .elseWord
  · obtain ⟨rfl, rfl⟩ := (alternative_reads_none hnext).mp h
    refine (alternative_reads_none ?_).mpr ⟨rfl, rfl⟩
    rwa [List.head?_append_of_ne_nil _ htokens]
  · cases hcons : tokens with
    | nil => exact absurd hcons htokens
    | cons token others =>
      have helse : token.kind = .elseWord := by simpa [hcons] using hnext
      rw [hcons] at h
      obtain ⟨brace, body, stmts, hothers, hbrace, hstmts, rfl⟩ :=
        (alternative_reads_else helse).mp h
      have hlength : tokens.length = body.length + 2 := by rw [hcons, hothers]; rfl
      exact (alternative_reads_else helse).mpr
        ⟨brace, body ++ more, stmts, by rw [hothers]; rfl, hbrace, block_append hstmts, rfl⟩
termination_by 5 * tokens.length + 1
decreasing_by all_goals omega

theorem climb_append {floor : Precedence} {left node : Node} {tokens rest : List Token}
    (h : (climb finish floor left tokens).Reads node rest) (hrest : rest ≠ []) :
    (climb finish' floor left (tokens ++ more)).Reads node (rest ++ more) := by
  have hgiven := h.ne_nil hrest
  by_cases hstop : nextRank tokens ≤ floor.rank
  · -- what ends the climb is a token that is there, so that `more` cannot take its place
    obtain ⟨rfl, rfl⟩ := (climb_reads_stop hstop).mp h
    exact (climb_reads_stop (by rwa [nextRank_append hgiven])).mpr ⟨rfl, rfl⟩
  cases htokens : tokens with
  | nil => exact absurd htokens hgiven
  | cons token others =>
    have hlength : tokens.length = others.length + 1 := by rw [htokens]; rfl
    rw [htokens, nextRank_cons] at hstop
    rw [htokens] at h
    have hlt := Nat.lt_of_not_le hstop
    by_cases hkind : token.kind = .openParen
    · obtain ⟨values, middle, hvalues, hclimb⟩ := (climb_reads_call hkind hlt).mp h
      have hmiddle := hvalues.length_le
      exact (climb_reads_call hkind hlt).mpr
        ⟨values, middle ++ more, args_append hvalues, climb_append hclimb hrest⟩
    · obtain ⟨right, middle, hright, hclimb⟩ := (climb_reads_operator hkind hlt).mp h
      have hmiddle := hright.length_le
      exact (climb_reads_operator hkind hlt).mpr ⟨right, middle ++ more,
        nextExpr_append hright (hclimb.ne_nil hrest), climb_append hclimb hrest⟩
termination_by 5 * tokens.length + 1
decreasing_by all_goals omega

/-- The same for arguments, which their closing parenthesis ends. -/
theorem args_append {tokens rest : List Token} {nodes : List Node}
    (h : (args finish tokens).Reads nodes rest) :
    (args finish' (tokens ++ more)).Reads nodes (rest ++ more) := by
  cases htokens : tokens with
  | nil => exact absurd (htokens ▸ h) args_reads_nil
  | cons token others =>
    have hlength : tokens.length = others.length + 1 := by rw [htokens]; rfl
    rw [htokens] at h
    rw [List.cons_append]
    by_cases hkind : token.kind = .closeParen
    · obtain ⟨rfl, rfl⟩ := (args_reads_close hkind).mp h
      exact (args_reads_close hkind).mpr ⟨rfl, rfl⟩
    · obtain ⟨value, middle, values, hvalue, hvalues, rfl⟩ := (args_reads_next hkind).mp h
      have hlength' := hvalue.length_le
      have hmiddle : middle ≠ [] := by
        rintro rfl
        exact absurd hvalues moreArgs_reads_nil
      exact (args_reads_next hkind).mpr ⟨value, middle ++ more, values,
        expr_append hvalue hmiddle, moreArgs_append hvalues, rfl⟩
termination_by 5 * tokens.length
decreasing_by all_goals omega

theorem moreArgs_append {tokens rest : List Token} {nodes : List Node}
    (h : (moreArgs finish tokens).Reads nodes rest) :
    (moreArgs finish' (tokens ++ more)).Reads nodes (rest ++ more) := by
  cases htokens : tokens with
  | nil => exact absurd (htokens ▸ h) moreArgs_reads_nil
  | cons token others =>
    have hlength : tokens.length = others.length + 1 := by rw [htokens]; rfl
    rw [htokens] at h
    rw [List.cons_append]
    by_cases hkind : token.kind = .comma
    · obtain ⟨value, middle, values, hvalue, hvalues, rfl⟩ := (moreArgs_reads_comma hkind).mp h
      have hlength' := hvalue.length_le
      have hmiddle : middle ≠ [] := by
        rintro rfl
        exact absurd hvalues moreArgs_reads_nil
      exact (moreArgs_reads_comma hkind).mpr ⟨value, middle ++ more, values,
        nextExpr_append hvalue hmiddle, moreArgs_append hvalues, rfl⟩
    · obtain ⟨hclose, rfl, rfl⟩ := (moreArgs_reads_other hkind).mp h
      exact (moreArgs_reads_other hkind).mpr ⟨hclose, rfl, rfl⟩
termination_by 5 * tokens.length
decreasing_by all_goals omega

end

end

end Parse

end TreeWalk
