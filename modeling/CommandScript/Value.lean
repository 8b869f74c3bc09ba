import CommandScript.Syntax

/-!
# Values

Programs compute with `null`, truth values, numbers, strings and functions. A function
value made from a declaration keeps the scope it was made in. Natives are provided by the
host; a value only names one and knows how many arguments it takes. Every function value
has an identity of its own.

* `Value.truthy`: only `null` and `false` count as false.
* `Value.same`: equality as programs see it; a NaN equals itself, and functions are equal
  only to themselves.
* `Value.text`, `Value.typeName`: the text and the type of a value.
* `Value.arity?`, `Value.hostText`: what the host sees of a function.
-/

namespace CommandScript

/-- Scopes are numbered in the order of their creation. -/
abbrev ScopeId := Nat

structure Native where
  name : String
  arity : Nat
  deriving DecidableEq

inductive Value where
  | null
  | bool (value : Bool)
  | number (value : Float)
  | string (value : String)
  | function (decl : FunctionDecl) (closure : ScopeId) (identity : Nat)
  | native (host : Native) (identity : Nat)

instance : Inhabited Value := ⟨.null⟩

namespace Value

def ofLiteral : Literal → Value
  | .null => .null
  | .bool value => .bool value
  | .number value => .number value
  | .string value => .string value

def truthy : Value → Bool
  | .null => false
  | .bool value => value
  | _ => true

/-- Equality of numbers: zeros of either sign are equal, and so are NaNs. -/
def sameNumber (a b : Float) : Bool := a == b || (a.isNaN && b.isNaN)

def same : Value → Value → Bool
  | .null, .null => true
  | .bool a, .bool b => a = b
  | .number a, .number b => sameNumber a b
  | .string a, .string b => a = b
  | .function _ _ a, .function _ _ b => a = b
  | .native _ a, .native _ b => a = b
  | _, _ => false

def typeName : Value → String
  | .null => "null"
  | .bool _ => "bool"
  | .number _ => "number"
  | .string _ => "string"
  | .function .. | .native .. => "function"

def text : Value → String
  | .null => "null"
  | .bool true => "true"
  | .bool false => "false"
  | .number value => Number.text value
  | .string value => value
  | .function decl _ _ => s!"<fn {decl.name}>"
  | .native _ _ => "<native fn>"

/-- The number of arguments that a function takes. -/
def arity? : Value → Option Nat
  | .function decl _ _ => some decl.params.length
  | .native host _ => some host.arity
  | _ => none

/-- The text of a value for the host, in which natives have their names. -/
def hostText : Value → String
  | .native host _ => s!"<native fn {host.name}>"
  | value => value.text

end Value

end CommandScript
