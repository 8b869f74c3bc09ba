import CommandScript.Token

/-!
# Programs

A program is a list of statements over expressions. Besides the usual statements there
are commands: a word with flags, parameters and positional arguments for the modules of
the host, and the two commands `help` and `exit` that the language answers itself.

References to variables carry a node id, which the resolution of names uses as key. Every
node keeps the line it was read from; a block has none.

* `Expr`, `Stmt`, `Command`, `Arg`: the nodes.
* `FunctionDecl`: a declared function, as it is kept by the values made from it.
* `Expr.line`: the line of an expression.
-/

namespace CommandScript

/-- Ids are handed out in order by a counter of 32 bits. -/
abbrev NodeId := UInt32

inductive UnaryOp where
  | negate
  | not
  deriving DecidableEq

inductive BinaryOp where
  | add | sub | mul | div
  | less | lessEqual | greater | greaterEqual
  | equal | notEqual
  deriving DecidableEq

inductive LogicalOp where
  | and
  | or
  deriving DecidableEq

def UnaryOp.text : UnaryOp → String
  | .negate => "-"
  | .not => "!"

def BinaryOp.text : BinaryOp → String
  | .add => "+"
  | .sub => "-"
  | .mul => "*"
  | .div => "/"
  | .less => "<"
  | .lessEqual => "<="
  | .greater => ">"
  | .greaterEqual => ">="
  | .equal => "=="
  | .notEqual => "!="

def LogicalOp.text : LogicalOp → String
  | .and => "and"
  | .or => "or"

inductive Expr where
  | literal (value : Literal) (line : Nat)
  | grouping (inner : Expr) (line : Nat)
  | unary (op : UnaryOp) (operand : Expr) (line : Nat)
  | binary (op : BinaryOp) (left right : Expr) (line : Nat)
  | logical (op : LogicalOp) (left right : Expr) (line : Nat)
  | variable (id : NodeId) (name : String) (line : Nat)
  | assign (id : NodeId) (name : String) (value : Expr) (line : Nat)
  | call (callee : Expr) (args : List Expr) (line : Nat)
  | commandRef (name : String) (line : Nat)

instance : Inhabited Expr := ⟨.literal .null 0⟩

def Expr.line : Expr → Nat
  | .literal _ line => line
  | .grouping _ line => line
  | .unary _ _ line => line
  | .binary _ _ _ line => line
  | .logical _ _ _ line => line
  | .variable _ _ line => line
  | .assign _ _ _ line => line
  | .call _ _ line => line
  | .commandRef _ line => line

/-- The value of an argument: a bare word stands for itself. -/
inductive ArgValue where
  | word (text : String)
  | expr (value : Expr)

inductive Arg where
  | positional (value : ArgValue)
  | flag (name : String)
  | parameter (name : String) (values : List ArgValue)

inductive Command where
  | deliver (word : String) (args : List Arg) (line : Nat)
  | help (topic : Option String) (line : Nat)
  | exit (line : Nat)

structure Parameter where
  name : String
  line : Nat
  deriving DecidableEq

inductive Stmt where
  | block (body : List Stmt)
  | expression (expr : Expr) (line : Nat)
  | branch (condition : Expr) (thenBranch : Stmt) (elseBranch : Option Stmt) (line : Nat)
  | loop (condition : Expr) (body : Stmt) (line : Nat)
  | print (expr : Expr) (line : Nat)
  | return (value : Option Expr) (line : Nat)
  | declare (name : String) (initializer : Option Expr) (line : Nat)
  | function (name : String) (params : List Parameter) (body : List Stmt) (line : Nat)
  | command (action : Command)

instance : Inhabited Stmt := ⟨.block []⟩

/-- A declared function: its name, the names of its parameters and its body. -/
structure FunctionDecl where
  name : String
  params : List String
  body : List Stmt

end CommandScript
