/-!
# Faults

What can be wrong with a program, by the stage that finds it, and where. A fault knows
its cause; the line is kept beside it.

* `Located`: a cause with the line it was found on.
* `LexFault`, `ParseFault`, `ResolveFault`, `RuntimeFault`: the causes, each with its
  `text`.
* `Fault`: a cause of any stage; `Located.message`: the text shown to the user.
-/

namespace CommandScript

structure Located (α : Type) where
  cause : α
  line : Nat
  deriving DecidableEq

inductive LexFault where
  | unexpectedCharacter (character : Char)
  | unterminatedString
  deriving DecidableEq

def LexFault.text : LexFault → String
  | .unexpectedCharacter character => s!"Unexpected character '{character}'."
  | .unterminatedString => "Unterminated string."

inductive ParseFault where
  | expected (what found : String)
  | expectedExpression (found : String)
  | unexpectedEnd (what : String)
  | invalidAssignmentTarget
  | tooManyArguments
  | tooManyParameters
  | tooDeeplyNested
  | noSuchCommand (found : String)
  | flagMustBeIdentifier (found : String)
  | parameterMustBeIdentifier (found : String)
  | invalidCommandArgument (found : String)
  deriving DecidableEq

def ParseFault.text : ParseFault → String
  | .expected what found => s!"Expected {what} but found '{found}'."
  | .expectedExpression found => s!"Expected expression but found '{found}'."
  | .unexpectedEnd what => s!"Unexpected end of input, expected {what}."
  | .invalidAssignmentTarget => "Invalid assignment target."
  | .tooManyArguments => "Cannot have more than 255 arguments."
  | .tooManyParameters => "Cannot have more than 255 parameters."
  | .tooDeeplyNested => "Too deeply nested."
  | .noSuchCommand found => s!"No such command '{found}'."
  | .flagMustBeIdentifier found => s!"Flag must be an identifier, found '{found}'."
  | .parameterMustBeIdentifier found =>
    s!"Parameter must be an identifier, found '{found}'."
  | .invalidCommandArgument found => s!"'{found}' is not a valid command argument."

inductive ResolveFault where
  | alreadyDeclared (name : String)
  | readInOwnInitializer (name : String)
  | returnOutsideFunction
  deriving DecidableEq

def ResolveFault.text : ResolveFault → String
  | .alreadyDeclared name => s!"Variable '{name}' is already declared in this scope."
  | .readInOwnInitializer name =>
    s!"Cannot read local variable '{name}' in its own initializer."
  | .returnOutsideFunction => "Cannot return from top-level code."

inductive RuntimeFault where
  | undefinedVariable (name : String)
  | operandMustBeNumber (operator : String)
  | operandsMustBeNumbers (operator : String)
  | operandsMustBeNumbersOrStrings
  | notCallable
  | arityMismatch (expected found : Nat)
  | nativeFailure (name details : String)
  | output (details : String)
  | stackOverflow
  deriving DecidableEq

def RuntimeFault.text : RuntimeFault → String
  | .undefinedVariable name => s!"Undefined variable '{name}'."
  | .operandMustBeNumber operator => s!"Operand of '{operator}' must be a number."
  | .operandsMustBeNumbers operator => s!"Operands of '{operator}' must be numbers."
  | .operandsMustBeNumbersOrStrings => "Operands must be two numbers or two strings."
  | .notCallable => "Can only call functions."
  | .arityMismatch expected found => s!"Expected {expected} arguments but got {found}."
  | .nativeFailure name details => s!"Built-in '{name}' failed: {details}."
  | .output details => s!"Could not write output: {details}."
  | .stackOverflow => "Stack overflow."

inductive Fault where
  | lex (fault : LexFault)
  | parse (fault : ParseFault)
  | resolve (fault : ResolveFault)
  | runtime (fault : RuntimeFault)
  deriving DecidableEq

namespace Fault

def text : Fault → String
  | .lex fault => fault.text
  | .parse fault => fault.text
  | .resolve fault => fault.text
  | .runtime fault => fault.text

def isRuntime : Fault → Bool
  | .runtime _ => true
  | _ => false

end Fault

namespace Located

def map {α β : Type} (f : α → β) (error : Located α) : Located β :=
  ⟨f error.cause, error.line⟩

def message (error : Located Fault) : String :=
  s!"Error on line {error.line}: {error.cause.text}"

end Located

end CommandScript
