import TreeWalk.Proofs.YamlLines
import TreeWalk.Yaml.Write

/-!
# What words mean in YAML

A plain scalar means a number if it is spelled like one, and a text if it is spelled like nothing
else.  The decimal digits of a natural number mean that number: they have no leading zero, which
would make them octal, and no dashes, which would make them a date.  A word that starts with a
letter is a text unless it is one of the few words with a meaning of their own.

## Main results

* `Yaml.meaning?_digits` — **the decimal digits of a number mean the number.**
* `Yaml.meaning?_text` — a word that starts with a letter is a text.
* `Yaml.writeText_bytesOf` — a text that can be written plainly is written as it is.
-/

namespace TreeWalk.Yaml

/-! ### Numbers -/

/-- `Nat.toDigits` of a number that is not zero start with another digit than zero. -/
theorem head?_toDigits {n : Nat} (hn : 0 < n) : (Nat.toDigits 10 n).head? ≠ some '0' := by
  induction n using Nat.strongRecOn with
  | ind n ih =>
    rw [Nat.toDigits_eq_if (by decide)]
    split
    · next hlt =>
      rw [List.head?_cons, Ne, Option.some.injEq, Nat.digitChar_eq_zero]
      omega
    · next hlt =>
      have hhead := ih (n / 10) (by omega) (by omega)
      obtain ⟨c, more, hmore⟩ := List.exists_cons_of_ne_nil (@Nat.toDigits_ne_nil (n / 10) 10)
      rw [hmore] at hhead ⊢
      exact hhead

theorem hexValue?_of_isDigit {c : Char} (hc : c.isDigit) : hexValue? c = some (c.toNat - 48) :=
  if_pos hc

theorem toNat_sub_lt_of_isDigit {c : Char} (hc : c.isDigit) : c.toNat - 48 < 10 := by
  simp only [Char.isDigit, Bool.and_eq_true, decide_eq_true_eq] at hc
  have hhigh : c.toNat ≤ 57 := hc.2
  omega

/-- `natural?` reads digits from the left, as `Nat.ofDigitChars` does. -/
theorem natural?_of_isDigit {digits : List Char} (hdigits : ∀ c ∈ digits, c.isDigit)
    (hne : digits ≠ []) : natural? 10 digits = some (Nat.ofDigitChars 10 digits 0) := by
  have hfold (n : Nat) : digits.foldlM (fun n c => do
      let d ← hexValue? c
      if d < 10 then some (n * 10 + d) else none) n = some (Nat.ofDigitChars 10 digits n) := by
    clear hne
    induction digits generalizing n with
    | nil => rfl
    | cons c digits ih =>
      rw [List.forall_mem_cons] at hdigits
      have hstep : n * 10 + (c.toNat - 48) = 10 * n + (c.toNat - '0'.toNat) :=
        congrArg (· + _) (Nat.mul_comm n 10)
      rw [List.foldlM_cons, hexValue?_of_isDigit hdigits.1, Nat.ofDigitChars_cons, ← hstep]
      simp only [Option.bind_eq_bind, Option.bind_some, toNat_sub_lt_of_isDigit hdigits.1, if_true]
      exact ih hdigits.2 _
  rw [natural?, hfold, if_neg (by simpa using hne)]

/-- The digits of a number have no base of their own, so `prefixed?` reads them with base ten. -/
theorem prefixed?_toDigits (n : Nat) : prefixed? (Nat.toDigits 10 n) = some n := by
  rcases Nat.eq_zero_or_pos n with rfl | hpos
  · rw [Nat.toDigits_zero]
    rfl
  · have hhead := head?_toDigits hpos
    have hdigits : ∀ c ∈ Nat.toDigits 10 n, c.isDigit := fun c hc =>
      Nat.isDigit_of_mem_toDigits (by decide) (by decide) hc
    have hnatural := natural?_of_isDigit hdigits Nat.toDigits_ne_nil
    rw [Nat.ofDigitChars_ten_toDigits] at hnatural
    rw [← hnatural, prefixed?.eq_def]
    split
    · next heq => exact absurd (congrArg List.head? heq) hhead
    · next heq => exact absurd (congrArg List.head? heq) hhead
    · rfl

/-- The digits of a number of 64 bits have no sign, so `numberMeaning?` takes them for an
integer. -/
theorem numberMeaning?_toDigits {n : Nat} (hn : n < unsignedBound) :
    numberMeaning? (Nat.toDigits 10 n) = some (.integer n) := by
  have hdigits : ∀ c ∈ Nat.toDigits 10 n, c.isDigit := fun c hc =>
    Nat.isDigit_of_mem_toDigits (by decide) (by decide) hc
  have hplain : (Nat.toDigits 10 n).filter (· ≠ '_') = Nat.toDigits 10 n := by
    refine List.filter_eq_self.2 fun c hc => ?_
    rw [decide_eq_true_eq]
    rintro rfl
    exact absurd (hdigits _ hc) (by decide)
  have hsigned : signed? prefixed? (Nat.toDigits 10 n) = some (n : Int) := by
    rw [signed?.eq_def]
    split
    · next heq => exact absurd (hdigits '-' (heq ▸ List.mem_cons_self)) (by decide)
    · next heq => exact absurd (hdigits '+' (heq ▸ List.mem_cons_self)) (by decide)
    · rw [prefixed?_toDigits]
      exact if_pos hn
  simp only [numberMeaning?, hplain, hsigned]

/-- Digits alone are no date: `isTimestamp` fails of them. -/
theorem isTimestamp_of_isDigit {digits : List Char} (hdigits : ∀ c ∈ digits, c.isDigit) :
    isTimestamp digits = false := by
  rw [isTimestamp.eq_def]
  split
  · next a b c d rest =>
    exact absurd (hdigits '-' (by simp)) (by decide)
  · rfl

/-! ### Words with a meaning of their own -/

theorem contains_eq_false {text : String} {words : List String}
    (h : ∀ word ∈ words, word.toList.head? ≠ text.toList.head?) : words.contains text = false := by
  rw [List.contains_eq_mem, decide_eq_false_iff_not]
  exact fun hmem => h text hmem rfl

/-- No `text` that starts with a digit is one of the words with a meaning of their own. -/
theorem word?_of_isDigit {text : String} {c : Char} (hhead : text.toList.head? = some c)
    (hc : c.isDigit) : word? text = none := by
  have hnone {words : List String}
      (hwords : ∀ word ∈ words, word.toList.head?.any Char.isDigit = false) :
      words.contains text = false := by
    refine contains_eq_false fun word hword heq => ?_
    have hany := hwords word hword
    rw [heq, hhead, Option.any_some, hc] at hany
    exact Bool.noConfusion hany
  rw [word?, hnone (by decide), hnone (by decide), hnone (by decide), hnone (by decide),
    hnone (by decide), hnone (by decide)]
  rfl

/-! ### Meanings -/

/-- A scalar that is `spelled` the same whether dates count or not, and is no mark for a merge, has
that `meaning`. -/
theorem meaning?_of_spelled {text : String} {meaning : Meaning}
    (h : ∀ dates, spelled dates text = meaning) (hmerge : text ≠ "<<")
    (htag : meaning.tag ∈ [Tag.boolean, .text, .integer]) :
    meaning? none .plain text = some meaning := by
  have hscalar : scalarTag none .plain text = meaning.tag := by
    rw [scalarTag, Option.getD_none, impliedTag, if_neg hmerge, plainMeaning, h]
  rw [meaning?, hscalar]
  cases meaning with
  | boolean | integer => simp only [Meaning.tag, taggedMeaning?, h, if_true]
  | text => rfl
  | _ => exact absurd htag (by simp [Meaning.tag])

/-- **The decimal digits of a number mean the number**, if it has 64 bits: `meaning?` of
`Nat.toDigits`. -/
theorem meaning?_digits {n : Nat} (hn : n < unsignedBound) :
    meaning? none .plain (String.ofList (Nat.toDigits 10 n)) = some (.integer n) := by
  have hdigits : ∀ c ∈ Nat.toDigits 10 n, c.isDigit := fun c hc =>
    Nat.isDigit_of_mem_toDigits (by decide) (by decide) hc
  obtain ⟨c, more, hmore⟩ := List.exists_cons_of_ne_nil (@Nat.toDigits_ne_nil n 10)
  have hc : c.isDigit := hdigits c (hmore ▸ List.mem_cons_self)
  have hhead : (String.ofList (Nat.toDigits 10 n)).toList.head? = some c := by
    rw [String.toList_ofList, hmore]
    rfl
  have hdot : c ≠ '.' := by
    rintro rfl
    exact absurd hc (by decide)
  refine meaning?_of_spelled (fun dates => ?_) (fun hmerge => ?_) (by simp [Meaning.tag])
  · have hnumber := numberMeaning?_toDigits hn
    have hdate := isTimestamp_of_isDigit hdigits
    rw [spelled, word?_of_isDigit hhead hc]
    rw [hmore] at hnumber hdate ⊢
    simp only [String.toList_ofList, hdot, if_false, hc, Bool.or_true, if_true, hdate,
      Bool.and_false, Bool.false_eq_true, hnumber, Option.getD_some]
  · rw [hmerge] at hhead
    obtain rfl : '<' = c := Option.some.inj hhead
    exact absurd hc (by decide)

section

variable {text : String} {c : Char} {more : List Char}

/-- A `text` that starts with a letter is `spelled` like a text, unless `word?` gives it a meaning
of its own. -/
theorem spelled_text (htext : text.toList = c :: more) (hc : c.isAlpha) (hword : word? text = none)
    (dates : Bool) : spelled dates text = .text := by
  have hdigit : c.isDigit = false := by
    rw [Bool.eq_false_iff]
    intro hdigit
    unfold Char.isAlpha Char.isUpper Char.isLower at hc
    unfold Char.isDigit at hdigit
    simp only [Bool.or_eq_true, Bool.and_eq_true, decide_eq_true_eq] at hc hdigit
    have hhigh : c.toNat ≤ 57 := hdigit.2
    have hlow : 65 ≤ c.toNat := hc.elim And.left fun hlower => Nat.le_trans (by decide) hlower.1
    omega
  have hsign {d : Char} (hd : d.isAlpha = false) : c ≠ d := by
    rintro rfl
    rw [hd] at hc
    exact Bool.noConfusion hc
  rw [spelled, hword]
  simp only [htext, hsign (d := '.') rfl, hsign (d := '+') rfl, hsign (d := '-') rfl, hdigit,
    decide_false, Bool.or_self, Bool.false_eq_true, if_false]

/-- A `text` that starts with a letter means a text, unless `word?` gives it a meaning of its
own. -/
theorem meaning?_text (htext : text.toList = c :: more) (hc : c.isAlpha)
    (hword : word? text = none) : meaning? none .plain text = some .text := by
  refine meaning?_of_spelled (spelled_text htext hc hword) (fun hmerge => ?_)
    (by simp [Meaning.tag])
  rw [hmerge] at htext
  obtain ⟨rfl, -⟩ : '<' = c ∧ _ := List.cons.inj htext
  exact absurd hc (by decide)

end

/-! ### Writing -/

/-- Characters that take one byte each are encoded as `bytesOf` has them. -/
theorem flatMap_utf8EncodeChar {chars : List Char} (h : ∀ c ∈ chars, c.toNat < 128) :
    chars.flatMap String.utf8EncodeChar = bytesOf chars := by
  induction chars with
  | nil => rfl
  | cons c chars ih =>
    rw [List.forall_mem_cons] at h
    have hc : String.utf8EncodeChar c = [ascii c] := if_pos (Nat.le_of_lt_succ h.1)
    rw [List.flatMap_cons, hc, ih h.2]
    rfl

/-- **A text that can be written plainly is written as it is** by `writeText`, with a line feed
behind it. -/
theorem writeText_bytesOf {chars : List Char} (hsmall : ∀ c ∈ chars, c.toNat < 128)
    (hline : '\n' ∉ chars) (hreads : readsAsText (String.ofList chars)) (hfits : plainFits chars) :
    writeText (bytesOf chars) = bytesOf (chars ++ ['\n']) := by
  have hdecode : Utf8.decode? (bytesOf chars) = some chars := by
    have hcount : (bytesOf chars).length = chars.length := List.length_map _
    rw [Utf8.decode?, hcount, read_bytesOf hsmall]
  have hwrite : writeChars chars = chars ++ ['\n'] := by
    have hcontains : chars.contains '\n' = false := by
      rw [List.contains_eq_mem, decide_eq_false_iff_not]
      exact hline
    simp only [writeChars, hcontains, hreads, hfits, Bool.false_eq_true, if_false, Bool.not_true,
      if_true]
  have hall : ∀ c ∈ chars ++ ['\n'], c.toNat < 128 :=
    List.forall_mem_append.2 ⟨hsmall, List.forall_mem_singleton.2 (by decide)⟩
  rw [writeText, hdecode]
  simp only [hwrite]
  exact flatMap_utf8EncodeChar hall

end TreeWalk.Yaml
