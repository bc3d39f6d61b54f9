import TreeWalk.Value

/-!
# Operators

What the operators of the language do with operands that are neither nothing nor a signal.
Numbers are doubles and follow the arithmetic of doubles, except that dividing by either zero is
an error.  Texts can be joined and nothing else.  All other values can only be compared for being
the same.

## Main definitions

* `Value.applyPrefix` — an operator before its operand.
* `Value.applyInfix` — an operator between its operands.
-/

namespace TreeWalk.Value

/-- The operator `op` before its operand; a sign before anything but a number is
`Fault.badPrefix`. -/
def applyPrefix (op : Bytes) (right : Value) : Value :=
  if op = utf8 "!" then boolean !right.isTruthy
  else if op = utf8 "-" then
    match right with
    | number value => number (-value)
    | _ => error (.badPrefix op right.typeLabel)
  else error (.badPrefix op right.typeLabel)

/-- The operator `op` between two numbers; dividing by either zero is `Fault.divisionByZero`. -/
def applyToNumbers (op : Bytes) (left right : Float) : Value :=
  if op = utf8 "+" then number (left + right)
  else if op = utf8 "-" then number (left - right)
  else if op = utf8 "*" then number (left * right)
  else if op = utf8 "/" then
    if right == 0 then error .divisionByZero else number (left / right)
  else if op = utf8 "<" then boolean (left < right)
  else if op = utf8 ">" then boolean (left > right)
  else if op = utf8 "==" then boolean (left == right)
  else if op = utf8 "!=" then boolean (left != right)
  else error (.badInfix (utf8 "INTEGER") op (utf8 "INTEGER"))

/-- The operator `op` between two texts, of which there is only `+`. -/
def applyToTexts (op left right : Bytes) : Value :=
  if op = utf8 "+" then text (left ++ right)
  else error (.badInfix (utf8 "STRING") op (utf8 "STRING"))

/-- The operator `op` between two values that are not both numbers and not both texts.  They can be
compared with `Value.same`; any other operator is `Fault.mismatch` if the types differ and
`Fault.badInfix` if they do not. -/
def applyToOthers (op : Bytes) (left right : Value) : Value :=
  if op = utf8 "==" then boolean (left.same right)
  else if op = utf8 "!=" then boolean !(left.same right)
  else if left.typeLabel ≠ right.typeLabel then
    error (.mismatch left.typeLabel op right.typeLabel)
  else error (.badInfix left.typeLabel op right.typeLabel)

/-- The operator `op` between its operands. -/
def applyInfix (op : Bytes) (left right : Value) : Value :=
  match left, right with
  | number a, number b => applyToNumbers op a b
  | text a, text b => applyToTexts op a b
  | _, _ => applyToOthers op left right

end TreeWalk.Value
