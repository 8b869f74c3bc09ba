import CommandScript.Proofs.Syntax.Spelling

/-!
# Programs as they are written

A program as it is written keeps each `for` as one statement with its three clauses, while
the statements that run have the loop it abbreviates. Declarations are among the forms of
statements; a body of a branch or loop is proper only if it is no declaration. A branch
without `else` that ends another statement would take an `else` that follows, so it cannot
stand before the `else` of an outer branch.

* `Form`: a declaration or statement as it is written; `Form.lowered`: what it abbreviates.
* `Form.Spelled`: a form and its tokens.
* `Form.Proper`: what the tokens alone do not say.
* `Form.levels`: the levels of nesting that a form needs.
* `StartsCommand`: a command word stands where a statement begins.
-/

namespace CommandScript

/-- What follows `var`. -/
structure VariableDecl where
  name : String
  initializer : Option Expr
  line : Nat

/-- The first clause of a `for`, with the `;` that ends it. -/
inductive ForStart where
  | absent
  | declared (decl : VariableDecl)
  | expression (expr : Expr) (line : Nat)

inductive Form where
  | function (name : String) (params : List Parameter) (body : List Form) (line : Nat)
  | declared (decl : VariableDecl)
  | expression (expr : Expr) (line : Nat)
  | branch (condition : Expr) (thenBranch : Form) (line : Nat)
  | choice (condition : Expr) (thenBranch elseBranch : Form) (line : Nat)
  | loop (condition : Expr) (body : Form) (line : Nat)
  | iteration (start : ForStart) (condition increment : Option Expr) (body : Form) (line : Nat)
  | print (expr : Expr) (line : Nat)
  | return (value : Option Expr) (line : Nat)
  | block (body : List Form)

/-! ## What a program abbreviates -/

def VariableDecl.lowered (decl : VariableDecl) : Stmt :=
  .declare decl.name decl.initializer decl.line

/-- The statement before the loop of a `for`. -/
def ForStart.lowered? : ForStart → Option Stmt
  | .absent => none
  | .declared decl => some decl.lowered
  | .expression expr line => some (.expression expr line)

mutual

/-- A `for` abbreviates a block of its first clause and a `while` that runs a block of the
body and the last clause. A block with nothing but the loop, or nothing but the body, is
left out. -/
def Form.lowered : Form → Stmt
  | .function name params body line => .function name params (Form.loweredAll body) line
  | .declared decl => decl.lowered
  | .expression expr line => .expression expr line
  | .branch condition thenBranch line => .branch condition thenBranch.lowered none line
  | .choice condition thenBranch elseBranch line =>
    .branch condition thenBranch.lowered (some elseBranch.lowered) line
  | .loop condition body line => .loop condition body.lowered line
  | .iteration start condition increment body line =>
    let condition := condition.getD (.literal (.bool true) line)
    let body := match increment with
      | none => body.lowered
      | some step => .block [body.lowered, .expression step step.line]
    match start.lowered? with
    | none => .loop condition body line
    | some first => .block [first, .loop condition body line]
  | .print expr line => .print expr line
  | .return value line => .return value line
  | .block body => .block (Form.loweredAll body)

def Form.loweredAll : List Form → List Stmt
  | [] => []
  | form :: rest => form.lowered :: Form.loweredAll rest

end

/-! ## Ids in the order of the tokens -/

/-- The ids of an expression that may be absent. -/
def optionIds : Option Expr → List NodeId
  | none => []
  | some expr => expr.ids

def ForStart.ids : ForStart → List NodeId
  | .absent => []
  | .declared decl => optionIds decl.initializer
  | .expression expr _ => expr.ids

mutual

def Form.ids : Form → List NodeId
  | .function _ _ body _ => Form.idsAll body
  | .declared decl => optionIds decl.initializer
  | .expression expr _ => expr.ids
  | .branch condition thenBranch _ => condition.ids ++ thenBranch.ids
  | .choice condition thenBranch elseBranch _ =>
    condition.ids ++ (thenBranch.ids ++ elseBranch.ids)
  | .loop condition body _ => condition.ids ++ body.ids
  | .iteration start condition increment body _ =>
    start.ids ++ (optionIds condition ++ (optionIds increment ++ body.ids))
  | .print expr _ => expr.ids
  | .return value _ => optionIds value
  | .block body => Form.idsAll body

def Form.idsAll : List Form → List NodeId
  | [] => []
  | form :: rest => form.ids ++ Form.idsAll rest

end

/-! ## Nesting -/

/-- An expression takes one level more than it nests. -/
def optionLevels : Option Expr → Nat
  | none => 0
  | some expr => expr.depth + 1

def ForStart.levels : ForStart → Nat
  | .absent => 0
  | .declared decl => optionLevels decl.initializer
  | .expression expr _ => expr.depth + 1

mutual

/-- Every statement takes a level, and so does every body in braces. -/
def Form.levels : Form → Nat
  | .function _ _ body _ => Form.levelsAll body + 1
  | .declared decl => optionLevels decl.initializer
  | .expression expr _ => expr.depth + 1 + 1
  | .branch condition thenBranch _ => max (condition.depth + 1) thenBranch.levels + 1
  | .choice condition thenBranch elseBranch _ =>
    max (condition.depth + 1) (max thenBranch.levels elseBranch.levels) + 1
  | .loop condition body _ => max (condition.depth + 1) body.levels + 1
  | .iteration start condition increment body _ =>
    max start.levels (max (optionLevels condition) (max (optionLevels increment) body.levels)) + 1
  | .print expr _ => expr.depth + 1 + 1
  | .return value _ => optionLevels value + 1
  | .block body => Form.levelsAll body + 1 + 1

def Form.levelsAll : List Form → Nat
  | [] => 0
  | form :: rest => max form.levels (Form.levelsAll rest)

end

/-! ## Proper programs -/

def Form.IsDeclaration : Form → Prop
  | .function .. | .declared .. => True
  | _ => False

/-- The form ends with a branch without `else`, which would take an `else` that follows. -/
def Form.Open : Form → Prop
  | .branch .. => True
  | .choice _ _ elseBranch _ => elseBranch.Open
  | .loop _ body _ => body.Open
  | .iteration _ _ _ body _ => body.Open
  | _ => False

def optionProper : Option Expr → Prop
  | none => True
  | some expr => expr.Proper

def ForStart.Proper : ForStart → Prop
  | .absent => True
  | .declared decl => optionProper decl.initializer
  | .expression expr _ => expr.Proper

mutual

def Form.Proper : Form → Prop
  | .function _ params body _ => params.length ≤ Grammar.maxArguments ∧ Form.ProperAll body
  | .declared decl => optionProper decl.initializer
  | .expression expr _ => expr.Proper
  | .branch condition thenBranch _ =>
    condition.Proper ∧ ¬ thenBranch.IsDeclaration ∧ thenBranch.Proper
  | .choice condition thenBranch elseBranch _ =>
    condition.Proper ∧ (¬ thenBranch.IsDeclaration ∧ ¬ thenBranch.Open ∧ thenBranch.Proper) ∧
      ¬ elseBranch.IsDeclaration ∧ elseBranch.Proper
  | .loop condition body _ => condition.Proper ∧ ¬ body.IsDeclaration ∧ body.Proper
  | .iteration start condition increment body _ =>
    start.Proper ∧ optionProper condition ∧ optionProper increment ∧ ¬ body.IsDeclaration ∧
      body.Proper
  | .print expr _ => expr.Proper
  | .return value _ => optionProper value
  | .block body => Form.ProperAll body

def Form.ProperAll : List Form → Prop
  | [] => True
  | form :: rest => form.Proper ∧ Form.ProperAll rest

end

/-! ## Tokens -/

/-- Items spelled one after the other. -/
inductive Listed {α : Type} (spelled : α → List Token → Prop) : List α → List Token → Prop where
  | none : Listed spelled [] []
  | more {item : α} {rest : List α} {tokens others : List Token} :
      spelled item tokens → Listed spelled rest others →
      Listed spelled (item :: rest) (tokens ++ others)

/-- The tokens of an expression that may be absent. -/
def SpelledOption : Option Expr → List Token → Prop
  | none, tokens => tokens = []
  | some expr, tokens => expr.Spelled tokens

/-- A parameter is spelled by its name. -/
def Parameter.Spelled (param : Parameter) (tokens : List Token) : Prop :=
  ∃ name : Token, name.kind = .identifier ∧ tokens = [name] ∧ param = ⟨name.lexeme, name.line⟩

/-- An expression, the line on which it begins and a `;`. -/
inductive Expr.Closed (expr : Expr) : Nat → List Token → Prop where
  | intro {first closing : Token} {rest : List Token} : expr.Spelled (first :: rest) →
      closing.kind = .semicolon → Expr.Closed expr first.line (first :: (rest ++ [closing]))

/-- The tokens after `var`. -/
inductive VariableDecl.Spelled : VariableDecl → List Token → Prop where
  | bare {name closing : Token} : name.kind = .identifier → closing.kind = .semicolon →
      VariableDecl.Spelled ⟨name.lexeme, none, name.line⟩ [name, closing]
  | initialized {name equal closing : Token} {value : Expr} {tokens : List Token} :
      name.kind = .identifier → equal.kind = .equal → value.Spelled tokens →
      closing.kind = .semicolon →
      VariableDecl.Spelled ⟨name.lexeme, some value, name.line⟩
        (name :: equal :: (tokens ++ [closing]))

inductive ForStart.Spelled : ForStart → List Token → Prop where
  | absent {closing : Token} : closing.kind = .semicolon → ForStart.Spelled .absent [closing]
  | declared {word : Token} {decl : VariableDecl} {tokens : List Token} :
      word.kind = .varWord → decl.Spelled tokens →
      ForStart.Spelled (.declared decl) (word :: tokens)
  | expression {expr : Expr} {line : Nat} {tokens : List Token} : expr.Closed line tokens →
      ForStart.Spelled (.expression expr line) tokens

namespace Form

/-- The tokens of a form from left to right. A statement that is an expression does not begin
with a command word, for this begins a command. -/
inductive Spelled : Form → List Token → Prop where
  | function {word name opening closing brace last : Token} {params : List Parameter}
      {body : List Form} {heads tokens : List Token} :
      word.kind = .funWord → name.kind = .identifier → opening.kind = .leftParen →
      Separated Parameter.Spelled params heads → closing.kind = .rightParen →
      brace.kind = .leftBrace → Listed Spelled body tokens → last.kind = .rightBrace →
      Spelled (.function name.lexeme params body name.line)
        ([word, name, opening] ++ (heads ++ [closing]) ++ ([brace] ++ (tokens ++ [last])))
  | declared {word : Token} {decl : VariableDecl} {tokens : List Token} :
      word.kind = .varWord → decl.Spelled tokens → Spelled (.declared decl) (word :: tokens)
  | expression {expr : Expr} {line : Nat} {tokens : List Token} : expr.Closed line tokens →
      (∀ first ∈ tokens.head?, first.kind ≠ .command) → Spelled (.expression expr line) tokens
  | branch {word opening closing : Token} {condition : Expr} {thenBranch : Form}
      {head tokens : List Token} : word.kind = .ifWord → opening.kind = .leftParen →
      condition.Spelled head → closing.kind = .rightParen → Spelled thenBranch tokens →
      Spelled (.branch condition thenBranch word.line)
        ([word, opening] ++ (head ++ [closing]) ++ tokens)
  | choice {word opening closing other : Token} {condition : Expr} {thenBranch elseBranch : Form}
      {head tokens others : List Token} : word.kind = .ifWord → opening.kind = .leftParen →
      condition.Spelled head → closing.kind = .rightParen → Spelled thenBranch tokens →
      other.kind = .elseWord → Spelled elseBranch others →
      Spelled (.choice condition thenBranch elseBranch word.line)
        ([word, opening] ++ (head ++ [closing]) ++ (tokens ++ other :: others))
  | loop {word opening closing : Token} {condition : Expr} {body : Form}
      {head tokens : List Token} : word.kind = .whileWord → opening.kind = .leftParen →
      condition.Spelled head → closing.kind = .rightParen → Spelled body tokens →
      Spelled (.loop condition body word.line) ([word, opening] ++ (head ++ [closing]) ++ tokens)
  | iteration {word opening middle closing : Token} {start : ForStart}
      {condition increment : Option Expr} {body : Form} {first second third tokens : List Token} :
      word.kind = .forWord → opening.kind = .leftParen → start.Spelled first →
      SpelledOption condition second → middle.kind = .semicolon → SpelledOption increment third →
      closing.kind = .rightParen → Spelled body tokens →
      Spelled (.iteration start condition increment body word.line)
        ([word, opening] ++ (first ++ (second ++ [middle]) ++ (third ++ [closing])) ++ tokens)
  | print {word closing : Token} {expr : Expr} {tokens : List Token} : word.kind = .printWord →
      expr.Spelled tokens → closing.kind = .semicolon →
      Spelled (.print expr word.line) ([word] ++ (tokens ++ [closing]))
  | return {word closing : Token} {value : Option Expr} {tokens : List Token} :
      word.kind = .returnWord → SpelledOption value tokens → closing.kind = .semicolon →
      Spelled (.return value word.line) ([word] ++ (tokens ++ [closing]))
  | block {opening closing : Token} {body : List Form} {tokens : List Token} :
      opening.kind = .leftBrace → Listed Spelled body tokens → closing.kind = .rightBrace →
      Spelled (.block body) ([opening] ++ (tokens ++ [closing]))

end Form

/-! ## Where statements begin -/

/-- As many parentheses are closed as are opened. -/
def Balanced (tokens : List Token) : Prop :=
  tokens.countP (·.kind = .leftParen) = tokens.countP (·.kind = .rightParen)

/-- A statement can begin at the start and after one of these. -/
def OpensStatement (kind : TokenKind) : Prop :=
  kind ∈ [.semicolon, .leftBrace, .rightBrace, .rightParen, .elseWord]

instance (kind : TokenKind) : Decidable (OpensStatement kind) := inferInstanceAs (Decidable (_ ∈ _))

/-- A command word stands where a statement begins: outside of all parentheses, at the start
or after a token that lets a statement begin. -/
def StartsCommand (tokens : List Token) : Prop :=
  ∃ before word after, tokens = before ++ word :: after ∧ word.kind = .command ∧ Balanced before ∧
    ∀ last ∈ before.getLast?, OpensStatement last.kind

end CommandScript
