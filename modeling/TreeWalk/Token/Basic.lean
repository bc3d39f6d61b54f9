import TreeWalk.Token.Kind
import TreeWalk.Token.Position

/-!
# Tokens

A token is a kind, the text it stands for, and the position of its first byte.  The text of a
string token is its content with the escapes resolved.

## Main definitions

* `Token` — a token.
* `Token.name` — the text of tokens that carry one, the label of the kind otherwise.
* `Token.text` — the token with its kind and position.
-/

namespace TreeWalk

/-- A token of a program text. -/
structure Token where
  /-- The kind. -/
  kind : Kind
  /-- The text it stands for. -/
  lexeme : Bytes
  /-- Where it starts. -/
  pos : Position
  deriving DecidableEq, Repr, Inhabited

namespace Token

/-- What a token is called: its text if `Kind.carriesText` holds, else the label of its kind. -/
def name (token : Token) : Bytes :=
  if token.kind.carriesText then token.lexeme else token.kind.label

/-- A line about the token: its text, `Kind.label` and `Position.text`. -/
def text (token : Token) : Bytes :=
  token.lexeme ++ utf8 " | " ++ token.kind.label ++ utf8 " | " ++ token.pos.text

end Token

end TreeWalk
