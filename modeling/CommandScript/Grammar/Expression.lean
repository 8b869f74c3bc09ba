import CommandScript.Grammar.Rule

/-!
# The grammar of expressions

    expression := logicalOr ("=" expression)?          only a name can be assigned to
    logicalOr  := logicalAnd ("or" logicalAnd)*
    logicalAnd := equality ("and" equality)*
    equality   := comparison (("==" | "!=") comparison)*
    comparison := sum (("<" | "<=" | ">" | ">=") sum)*
    sum        := product (("+" | "-") product)*
    product    := unary (("*" | "/") unary)*
    unary      := ("!" | "-") unary | call
    call       := primary ("(" (expression ("," expression)*)? ")")*
    primary    := literal | name | command word | "(" expression ")"

The rules for what stands inside a parenthesis or after a unary operator are given from
outside, because the caller limits how deep they may nest.

* `assignment`: the rule of `expression`; `unary`: that of an operand; `primary`: atoms.
-/

namespace CommandScript.Grammar

open Rule

/-- A call has at most this many arguments, a function this many parameters. -/
def maxArguments : Nat := 255

def primary (expression : Rule Expr) : Rule Expr := do
  let token ← peek
  match token.kind with
  | .number | .string | .trueWord | .falseWord =>
    skip
    return .literal (token.literal.getD .null) token.line
  | .nullWord =>
    skip
    return .literal .null token.line
  | .identifier =>
    skip
    return .variable (← freshId) token.lexeme token.line
  | .command =>
    skip
    return .commandRef token.lexeme token.line
  | .leftParen =>
    skip
    let inner ← expression
    let _ ← require .rightParen "')' after expression"
    return .grouping inner token.line
  | .endOfInput => fail ⟨.unexpectedEnd "expression", token.line⟩
  | _ => fail ⟨.expectedExpression token.lexeme, token.line⟩

/-- The rest of a call after its opening parenthesis. -/
def finishCall (expression : Rule Expr) (callee : Expr) : Rule Expr := do
  let args ←
    if ← check .rightParen then pure []
    else separated maxArguments .tooManyArguments expression
  let paren ← require .rightParen "')' after arguments"
  return .call callee args paren.line

def call (expression : Rule Expr) : Rule Expr := do
  let callee ← primary expression
  repeated (fun callee => do
    if ← accept .leftParen then return .again (← finishCall expression callee)
    else return .last callee) callee

def unaryOp? : TokenKind → Option UnaryOp
  | .bang => some .not
  | .minus => some .negate
  | _ => none

def unary (expression operand : Rule Expr) : Rule Expr := do
  let token ← peek
  match unaryOp? token.kind with
  | some op =>
    skip
    return .unary op (← operand) token.line
  | none => call expression

/-- Operands joined by operators of one level, grouped to the left. -/
def leftAssociative {ω : Type} (operator? : TokenKind → Option ω)
    (node : ω → Expr → Expr → Nat → Expr) (operand : Rule Expr) : Rule Expr := do
  let first ← operand
  repeated (fun left => do
    let token ← peek
    match operator? token.kind with
    | some op =>
      skip
      return .again (node op left (← operand) token.line)
    | none => return .last left) first

def productOp? : TokenKind → Option BinaryOp
  | .star => some .mul
  | .slash => some .div
  | _ => none

def sumOp? : TokenKind → Option BinaryOp
  | .minus => some .sub
  | .plus => some .add
  | _ => none

def comparisonOp? : TokenKind → Option BinaryOp
  | .greater => some .greater
  | .greaterEqual => some .greaterEqual
  | .less => some .less
  | .lessEqual => some .lessEqual
  | _ => none

def equalityOp? : TokenKind → Option BinaryOp
  | .equalEqual => some .equal
  | .bangEqual => some .notEqual
  | _ => none

def andOp? : TokenKind → Option LogicalOp
  | .andWord => some .and
  | _ => none

def orOp? : TokenKind → Option LogicalOp
  | .orWord => some .or
  | _ => none

/-- Every level between assignment and unary operators. -/
def logicalOr (expression operand : Rule Expr) : Rule Expr :=
  leftAssociative orOp? .logical <|
  leftAssociative andOp? .logical <|
  leftAssociative equalityOp? .binary <|
  leftAssociative comparisonOp? .binary <|
  leftAssociative sumOp? .binary <|
  leftAssociative productOp? .binary <|
  unary expression operand

/-- Assigns the last of a chain of expressions to the one before it, and so on to the
first. Each link holds the line of its `=`. A target that is no name is reported and
stands in place of the assignment. -/
def assignChain (target : Expr) : List (Nat × Expr) → Rule Expr
  | [] => pure target
  | (line, next) :: rest => do
    let value ← assignChain next rest
    match target with
    | .variable id name nameLine => return .assign id name value nameLine
    | _ =>
      record ⟨.invalidAssignmentTarget, line⟩
      return target

def assignment (expression operand : Rule Expr) : Rule Expr := do
  let target ← logicalOr expression operand
  let links ← repeated (fun (links : Array (Nat × Expr)) => do
    match ← accept? .equal with
    | some token => return .again (links.push (token.line, ← logicalOr expression operand))
    | none => return .last links) #[]
  assignChain target links.toList

end CommandScript.Grammar
