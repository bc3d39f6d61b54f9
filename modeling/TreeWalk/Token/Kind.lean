import TreeWalk.Text.Bytes

/-!
# Token kinds

Every token has a kind.  Kinds are numbered from zero in the order of their declaration; numbers
outside that range name no kind, and `Kind.unassigned` carries them so that a token with such a
number can still be described.

## Main definitions

* `Kind` — the kinds.
* `Kind.ofNumber` — the kind with a given number.
* `Kind.label` — the name a kind has in messages.
* `Kind.keyword?` — the kind of a reserved word.
-/

namespace TreeWalk

/-- The kind of a token. -/
inductive Kind
  /-- The end of the input. -/
  | eof
  /-- Bytes that form no token. -/
  | illegal
  /-- A name. -/
  | ident
  /-- A run of digits. -/
  | int
  /-- A text in double quotes. -/
  | string
  /-- The word `fn`. -/
  | fnWord
  /-- The word `let`. -/
  | letWord
  /-- The word `true`. -/
  | trueWord
  /-- The word `false`. -/
  | falseWord
  /-- The word `if`. -/
  | ifWord
  /-- The word `else`. -/
  | elseWord
  /-- The word `return`. -/
  | returnWord
  /-- An opening parenthesis. -/
  | openParen
  /-- A closing parenthesis. -/
  | closeParen
  /-- An opening brace. -/
  | openBrace
  /-- A closing brace. -/
  | closeBrace
  /-- A comma. -/
  | comma
  /-- A semicolon. -/
  | semicolon
  /-- The sign `=`. -/
  | equal
  /-- The sign `!`. -/
  | bang
  /-- The sign `!=`. -/
  | bangEqual
  /-- The sign `==`. -/
  | equalEqual
  /-- The sign `>`. -/
  | greater
  /-- The sign `<`. -/
  | less
  /-- The sign `+`. -/
  | plus
  /-- The sign `-`. -/
  | minus
  /-- The sign `*`. -/
  | star
  /-- The sign `/`. -/
  | slash
  /-- A number that belongs to no kind. -/
  | unassigned (number : Int)
  deriving DecidableEq, Repr, Inhabited

namespace Kind

/-- The kinds in the order of their numbers. -/
def numbered : List Kind :=
  [eof, illegal, ident, int, string, fnWord, letWord, trueWord, falseWord, ifWord, elseWord,
    returnWord, openParen, closeParen, openBrace, closeBrace, comma, semicolon, equal, bang,
    bangEqual, equalEqual, greater, less, plus, minus, star, slash]

/-- The kind with the given `number`, which is `unassigned` outside `numbered`. -/
def ofNumber (number : Int) : Kind :=
  if 0 ≤ number then numbered[number.toNat]?.getD (unassigned number) else unassigned number

/-- The name a kind has in messages: signs stand for themselves. -/
def label : Kind → Bytes
  | eof => utf8 "EOF"
  | illegal => utf8 "ILLEGAL"
  | ident => utf8 "IDENT"
  | int => utf8 "INT"
  | string => utf8 "STRING"
  | fnWord => utf8 "FUNCTION"
  | letWord => utf8 "LET"
  | trueWord => utf8 "TRUE"
  | falseWord => utf8 "FALSE"
  | ifWord => utf8 "IF"
  | elseWord => utf8 "ELSE"
  | returnWord => utf8 "RETURN"
  | openParen => utf8 "("
  | closeParen => utf8 ")"
  | openBrace => utf8 "\x7b"
  | closeBrace => utf8 "\x7d"
  | comma => utf8 ","
  | semicolon => utf8 ";"
  | equal => utf8 "="
  | bang => utf8 "!"
  | bangEqual => utf8 "!="
  | equalEqual => utf8 "=="
  | greater => utf8 ">"
  | less => utf8 "<"
  | plus => utf8 "+"
  | minus => utf8 "-"
  | star => utf8 "*"
  | slash => utf8 "/"
  | unassigned number => utf8 "Kind(" ++ Bytes.ofInt number ++ utf8 ")"

/-- The reserved words and their kinds. -/
def keywords : List (Bytes × Kind) :=
  [(utf8 "fn", fnWord), (utf8 "let", letWord), (utf8 "true", trueWord), (utf8 "false", falseWord),
    (utf8 "if", ifWord), (utf8 "else", elseWord), (utf8 "return", returnWord)]

/-- The kind of a reserved word, or `none` for a text that is not in `keywords`. -/
def keyword? (word : Bytes) : Option Kind :=
  keywords.lookup word

/-- The kind of a sign of one byte that starts no longer sign. -/
def sign? (b : UInt8) : Option Kind :=
  if b = ascii '(' then some openParen
  else if b = ascii ')' then some closeParen
  else if b = ascii '{' then some openBrace
  else if b = ascii '}' then some closeBrace
  else if b = ascii ',' then some comma
  else if b = ascii ';' then some semicolon
  else if b = ascii '+' then some plus
  else if b = ascii '-' then some minus
  else if b = ascii '*' then some star
  else if b = ascii '/' then some slash
  else if b = ascii '<' then some less
  else if b = ascii '>' then some greater
  else none

/-- Whether tokens of this kind carry text of the user's choice. -/
def carriesText : Kind → Bool
  | ident | int | string | illegal => true
  | _ => false

end Kind

end TreeWalk
