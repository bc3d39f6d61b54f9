import TreeWalk.Number.Shortest
import TreeWalk.Tree.Render

/-!
# Values

What evaluation yields.  Besides the values of the language proper (numbers, truth values, texts,
null and functions) there are the two *signals* — a run-time error and a pending return — which
travel upwards through every construct as ordinary results, and *nothing*, which a statement such
as a binding leaves behind.

Functions are told apart by a stamp given when they are made: two functions are the same exactly
when they have the same stamp, however alike they look.

## Main definitions

* `Fault`, `Fault.message` — the causes of a run-time error and their wording.
* `Closure` — a function with the scope it was made in.
* `Value` — a result of evaluation.
* `Value.isSignal`, `Value.isTruthy`, `Value.same` — the tests the evaluator makes.
* `Value.inspect` — the text of a value.
-/

namespace TreeWalk

/-- Why evaluation failed.  Types are given by their labels. -/
inductive Fault
  /-- The name is bound nowhere. -/
  | unbound (name : Bytes)
  /-- The operator does not apply to an operand of this type. -/
  | badPrefix (op type : Bytes)
  /-- The operator does not apply to operands of these types. -/
  | badInfix (left op right : Bytes)
  /-- The operands are of different types. -/
  | mismatch (left op right : Bytes)
  /-- A value of this type was called. -/
  | notFunction (type : Bytes)
  /-- The divisor is zero. -/
  | divisionByZero
  /-- A failure with wording of its own. -/
  | custom (message : Bytes)
  deriving DecidableEq, Repr, Inhabited

/-- The wording of a `Fault`. -/
def Fault.message : Fault → Bytes
  | unbound name => utf8 "identifier not found: " ++ name
  | badPrefix op type => utf8 "unknown operator: " ++ op ++ type
  | badInfix left op right =>
    utf8 "unknown operator: " ++ left ++ utf8 " " ++ op ++ utf8 " " ++ right
  | mismatch left op right =>
    utf8 "type mismatch: " ++ left ++ utf8 " " ++ op ++ utf8 " " ++ right
  | notFunction type => utf8 "not a function: " ++ type
  | divisionByZero => utf8 "division by zero"
  | custom message => message

/-- The number of a scope on the heap. -/
abbrev ScopeId := Nat

/-- A function value: its text, and the scope it was made in. -/
structure Closure where
  /-- Tells functions apart: each evaluation of a function text gets a new stamp. -/
  stamp : Nat
  /-- The parameters. -/
  params : List Ident
  /-- The body, a block. -/
  body : Node
  /-- The scope in which the function was made; a function built by hand may have none. -/
  scope : Option ScopeId
  deriving Inhabited

/-- A result of evaluation. -/
inductive Value
  /-- No value at all. -/
  | nothing
  /-- The null value. -/
  | null
  /-- A number. -/
  | number (value : Float)
  /-- A truth value. -/
  | boolean (value : Bool)
  /-- A text. -/
  | text (value : Bytes)
  /-- A function. -/
  | function (closure : Closure)
  /-- A run-time error. -/
  | error (fault : Fault)
  /-- A return on its way to the call it ends. -/
  | pending (value : Value)
  deriving Inhabited

namespace Value

/-- The label of the type of a value, as a `Fault` names it. -/
def typeLabel : Value → Bytes
  | nothing => []
  | null => utf8 "NULL"
  | number _ => utf8 "INTEGER"
  | boolean _ => utf8 "BOOL"
  | text _ => utf8 "STRING"
  | function _ => utf8 "FUNCTION_VALUE"
  | error _ => utf8 "ERROR"
  | pending _ => utf8 "RETURN_VALUE"

/-- Whether a result ends the construct that receives it: an error or a pending return. -/
def isSignal : Value → Bool
  | error _ | pending _ => true
  | _ => false

/-- Whether a result is a run-time error. -/
def isError : Value → Bool
  | error _ => true
  | _ => false

/-- Where a value is needed, `nothing` reads as `null`. -/
def orNull : Value → Value
  | nothing => null
  | value => value

/-- `null` and `false` count as false, every other value as true. -/
def isTruthy : Value → Bool
  | null => false
  | boolean value => value
  | _ => true

/-- A return has arrived: what a `pending` value carries. -/
def arrived : Value → Value
  | pending value => value
  | value => value

/-- Whether two values that are not both numbers and not both texts are the same.  Functions are
compared by `Closure.stamp`, so only a function and itself are. -/
def same : Value → Value → Bool
  | null, null => true
  | boolean a, boolean b => a == b
  | function f, function g => f.stamp == g.stamp
  | _, _ => false

/-- The text of a function value: its parameters, and its body as `Node.render` writes it, between
braces on lines of their own. -/
def inspectFunction (closure : Closure) : Bytes :=
  utf8 "fn(" ++ renderParams closure.params ++ utf8 ") \x7b\n" ++ closure.body.render
    ++ utf8 "\n\x7d"

/-- The text of a value; numbers are written by `Number.text`. -/
def inspect : Value → Bytes
  | nothing => []
  | null => utf8 "null"
  | number value => Number.text value
  | boolean value => if value then utf8 "true" else utf8 "false"
  | text value => value
  | function closure => inspectFunction closure
  | error fault => utf8 "ERROR: " ++ fault.message
  | pending nothing => utf8 "null"
  | pending value => value.inspect

end Value

end TreeWalk
