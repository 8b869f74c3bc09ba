import CommandScript.Grammar.Arguments

/-!
# The grammar of statements

    declaration := "fun" name "(" names? ")" block | "var" name ("=" expression)? ";" | statement
    statement   := "for" "(" (";" | var | expression ";") expression? ";" expression? ")" statement
                 | "if" "(" expression ")" statement ("else" statement)?
                 | "while" "(" expression ")" statement
                 | "print" expression ";" | "return" expression? ";"
                 | "{" declaration* "}" | command | expression ";"

A `for` is read as the loop it abbreviates. In command mode the `;` of a `print` may be
left out at the end of the input. A declaration with a fault is dropped, its fault is
recorded, and reading goes on at the next statement.

Statements, blocks, expressions and operands may nest `maxNesting` deep. `nested` builds
their rules from the inside out: with nothing left to nest every one of them fails.

* `nested`: the four rules that count as a level of nesting.
* `declaration`: a declaration or statement, or nothing after a fault.
-/

namespace CommandScript

/-- A script is read from a file; in command mode a line is typed at a prompt. -/
inductive InputMode where
  | script
  | command
  deriving DecidableEq

namespace Grammar

open Rule

/-- The rules that can be used within one more level of nesting. -/
structure Nested where
  expression : Rule Expr
  operand : Rule Expr
  statement : Rule Stmt
  block : Rule (List Stmt)

def maxNesting : Nat := 1024

section Statements

variable (inner : Nested) (mode : InputMode)

def variableDeclaration : Rule Stmt := do
  let name ← require .identifier "variable name"
  let initializer ← if ← accept .equal then some <$> inner.expression else pure none
  endStatement false
  return .declare name.lexeme initializer name.line

def parameter : Rule Parameter := do
  let name ← require .identifier "parameter name"
  return ⟨name.lexeme, name.line⟩

def functionDeclaration : Rule Stmt := do
  let name ← require .identifier "function name"
  let _ ← require .leftParen "'(' after function name"
  let params ←
    if ← check .rightParen then pure []
    else separated maxArguments .tooManyParameters parameter
  let _ ← require .rightParen "')' after parameters"
  let _ ← require .leftBrace "'\x7b' before function body"
  let body ← inner.block
  return .function name.lexeme params body name.line

def expressionStatement : Rule Stmt := do
  let line := (← peek).line
  let expr ← inner.expression
  endStatement false
  return .expression expr line

/-- The loop that a `for` abbreviates: a block with the initializer and a `while` whose
body is followed by the increment. Absent parts leave no trace. -/
def forLoop (initializer : Option Stmt) (condition : Expr) (increment : Option Expr)
    (body : Stmt) (line : Nat) : Stmt :=
  let body := match increment with
    | some step => .block [body, .expression step step.line]
    | none => body
  let loop := .loop condition body line
  match initializer with
  | some start => .block [start, loop]
  | none => loop

def forInitializer : Rule (Option Stmt) := do
  if ← accept .semicolon then return none
  if ← accept .varWord then return some (← variableDeclaration inner)
  return some (← expressionStatement inner)

def forStatement (line : Nat) : Rule Stmt := do
  let _ ← require .leftParen "'(' after 'for'"
  let initializer ← forInitializer inner
  let condition ←
    if ← check .semicolon then pure (.literal (.bool true) line) else inner.expression
  let _ ← require .semicolon "';' after loop condition"
  let increment ← if ← check .rightParen then pure none else some <$> inner.expression
  let _ ← require .rightParen "')' after for clauses"
  let body ← inner.statement
  return forLoop initializer condition increment body line

def ifStatement (line : Nat) : Rule Stmt := do
  let _ ← require .leftParen "'(' after 'if'"
  let condition ← inner.expression
  let _ ← require .rightParen "')' after if condition"
  let thenBranch ← inner.statement
  let elseBranch ← if ← accept .elseWord then some <$> inner.statement else pure none
  return .branch condition thenBranch elseBranch line

def whileStatement (line : Nat) : Rule Stmt := do
  let _ ← require .leftParen "'(' after 'while'"
  let condition ← inner.expression
  let _ ← require .rightParen "')' after condition"
  let body ← inner.statement
  return .loop condition body line

def printStatement (line : Nat) : Rule Stmt := do
  let expr ← inner.expression
  endStatement (mode = .command)
  return .print expr line

def returnStatement (line : Nat) : Rule Stmt := do
  let value ← if ← check .semicolon then pure none else some <$> inner.expression
  endStatement false
  return .return value line

def statement : Rule Stmt := do
  let token ← peek
  match token.kind with
  | .forWord =>
    skip
    forStatement inner token.line
  | .ifWord =>
    skip
    ifStatement inner token.line
  | .printWord =>
    skip
    printStatement inner mode token.line
  | .returnWord =>
    skip
    returnStatement inner token.line
  | .whileWord =>
    skip
    whileStatement inner token.line
  | .leftBrace =>
    skip
    .block <$> inner.block
  | .command =>
    skip
    .command <$> command inner.expression token
  | _ => expressionStatement inner

def declaration : Rule (Option Stmt) := recover do
  if ← accept .funWord then return ← functionDeclaration inner
  if ← accept .varWord then return ← variableDeclaration inner
  inner.statement

/-- Declarations up to a closing brace. -/
def blockBody : Rule (List Stmt) := do
  let body ← repeated (fun (body : Array Stmt) => do
    if (← check .rightBrace) || (← atEnd) then return .last body
    match ← declaration inner with
    | some stmt => return .again (body.push stmt)
    | none => return .again body) #[]
  let _ ← require .rightBrace "'\x7d' after block"
  return body.toList

end Statements

/-- The fault of anything that would nest too deep. -/
def tooDeep {α : Type} : Rule α := do
  fail ⟨.tooDeeplyNested, (← peek).line⟩

/-- The rules with `levels` levels of nesting left. -/
def nested (mode : InputMode) : (levels : Nat) → Nested
  | 0 => ⟨tooDeep, tooDeep, tooDeep, tooDeep⟩
  | levels + 1 =>
    let inner := nested mode levels
    { expression := assignment inner.expression inner.operand
      operand := unary inner.expression inner.operand
      statement := statement inner mode
      block := blockBody inner }

end Grammar

end CommandScript
