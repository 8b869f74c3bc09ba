import CommandScript.Grammar.Expression

/-!
# The grammar of commands

    command   := "help" COMMAND? end | "exit" end | COMMAND (flag | parameter | value | ",")* end
    flag      := "-" IDENTIFIER
    parameter := "-" "-" IDENTIFIER (value | ",")*
    value     := IDENTIFIER | COMMAND | literal | "(" expression ")"
    end       := ";" | end of the input

A parameter takes all values up to the next `-` or the end of the command. Commas only
separate.

* `endStatement`: the end of a statement.
* `command`: the rest of a command after its word.
-/

namespace CommandScript.Grammar

open Rule

/-- A `;`, or the end of the input where that is allowed instead. -/
def endStatement (optional : Bool) : Rule Unit := do
  if ← accept .semicolon then return
  if optional && (← atEnd) then return
  expected "';'"

def atCommandEnd : Rule Bool := do
  return (← check .semicolon) || (← atEnd)

def argValue (expression : Rule Expr) : Rule ArgValue := do
  let token ← peek
  match token.kind with
  | .identifier | .command =>
    skip
    return .word token.lexeme
  | .number | .string | .trueWord | .falseWord | .nullWord | .leftParen =>
    return .expr (← primary expression)
  | _ => fail ⟨.invalidCommandArgument token.lexeme, token.line⟩

/-- The name after a marker. -/
def markerName (missing : String → ParseFault) : Rule String := do
  match ← accept? .identifier with
  | some token => return token.lexeme
  | none =>
    let token ← peek
    fail ⟨missing token.lexeme, token.line⟩

def parameterValues (expression : Rule Expr) : Rule (List ArgValue) := do
  let values ← repeated (fun (values : Array ArgValue) => do
    if (← atCommandEnd) || (← check .minus) then return .last values
    if ← accept .comma then return .again values
    return .again (values.push (← argValue expression))) #[]
  return values.toList

/-- A flag or parameter after its first `-`. -/
def marked (expression : Rule Expr) : Rule Arg := do
  if ← accept .minus then
    let name ← markerName .parameterMustBeIdentifier
    return .parameter name (← parameterValues expression)
  else return .flag (← markerName .flagMustBeIdentifier)

def args (expression : Rule Expr) : Rule (List Arg) := do
  let args ← repeated (fun (args : Array Arg) => do
    if ← atCommandEnd then return .last args
    if ← accept .comma then return .again args
    if ← accept .minus then return .again (args.push (← marked expression))
    return .again (args.push (.positional (← argValue expression)))) #[]
  return args.toList

/-- The topic of `help`, if one is named. -/
def helpTopic : Rule (Option String) := do
  if ← atCommandEnd then return none
  match ← accept? .command with
  | some token => return some (Text.lowered token.lexeme)
  | none =>
    let token ← peek
    fail ⟨.noSuchCommand token.lexeme, token.line⟩

def command (expression : Rule Expr) (word : Token) : Rule Command := do
  let name := Text.lowered word.lexeme
  if name = "help" then
    let topic ← helpTopic
    endStatement true
    return .help topic word.line
  else if name = "exit" then
    endStatement true
    return .exit word.line
  else
    let given ← args expression
    endStatement true
    return .deliver name given word.line

end CommandScript.Grammar
