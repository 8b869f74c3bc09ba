import CommandScript.Syntax

/-!
# Comparing programs

Whether two programs are the same can be decided, node by node. So a concrete program that is
read can be compared with the program that it should be.

* `Expr.decEq`, `Stmt.decEq`: nodes of the same kind are compared by their parts.
-/

namespace CommandScript

mutual

/-- Nodes of different kinds are told apart by the index of their constructor. -/
def Expr.decEq (expr other : Expr) : Decidable (expr = other) :=
  if h : expr.ctorIdx = other.ctorIdx then
    match expr, other, h with
    | .literal value line, .literal value' line', _ =>
      decidable_of_iff (value = value' ∧ line = line') (by simp)
    | .grouping inner line, .grouping inner' line', _ =>
      have := Expr.decEq inner inner'
      decidable_of_iff (inner = inner' ∧ line = line') (by simp)
    | .unary op operand line, .unary op' operand' line', _ =>
      have := Expr.decEq operand operand'
      decidable_of_iff (op = op' ∧ operand = operand' ∧ line = line') (by simp)
    | .binary op left right line, .binary op' left' right' line', _ =>
      have := Expr.decEq left left'
      have := Expr.decEq right right'
      decidable_of_iff (op = op' ∧ left = left' ∧ right = right' ∧ line = line') (by simp)
    | .logical op left right line, .logical op' left' right' line', _ =>
      have := Expr.decEq left left'
      have := Expr.decEq right right'
      decidable_of_iff (op = op' ∧ left = left' ∧ right = right' ∧ line = line') (by simp)
    | .variable id name line, .variable id' name' line', _ =>
      decidable_of_iff (id = id' ∧ name = name' ∧ line = line') (by simp)
    | .assign id name value line, .assign id' name' value' line', _ =>
      have := Expr.decEq value value'
      decidable_of_iff (id = id' ∧ name = name' ∧ value = value' ∧ line = line') (by simp)
    | .call callee args line, .call callee' args' line', _ =>
      have := Expr.decEq callee callee'
      have := Expr.decEqAll args args'
      decidable_of_iff (callee = callee' ∧ args = args' ∧ line = line') (by simp)
    | .commandRef name line, .commandRef name' line', _ =>
      decidable_of_iff (name = name' ∧ line = line') (by simp)
  else isFalse fun heq => h (congrArg Expr.ctorIdx heq)

def Expr.decEqAll (exprs others : List Expr) : Decidable (exprs = others) :=
  match exprs, others with
  | [], [] => isTrue rfl
  | [], _ :: _ | _ :: _, [] => isFalse (by simp)
  | expr :: rest, other :: others =>
    have := Expr.decEq expr other
    have := Expr.decEqAll rest others
    decidable_of_iff (expr = other ∧ rest = others) (by simp)

end

instance : DecidableEq Expr := Expr.decEq

deriving instance DecidableEq for ArgValue, Arg, Command

mutual

def Stmt.decEq (stmt other : Stmt) : Decidable (stmt = other) :=
  if h : stmt.ctorIdx = other.ctorIdx then
    match stmt, other, h with
    | .block body, .block body', _ =>
      have := Stmt.decEqAll body body'
      decidable_of_iff (body = body') (by simp)
    | .expression expr line, .expression expr' line', _ =>
      decidable_of_iff (expr = expr' ∧ line = line') (by simp)
    | .branch condition thenBranch elseBranch line,
        .branch condition' thenBranch' elseBranch' line', _ =>
      have := Stmt.decEq thenBranch thenBranch'
      have := Stmt.decEqOption elseBranch elseBranch'
      decidable_of_iff (condition = condition' ∧ thenBranch = thenBranch' ∧
        elseBranch = elseBranch' ∧ line = line') (by simp)
    | .loop condition body line, .loop condition' body' line', _ =>
      have := Stmt.decEq body body'
      decidable_of_iff (condition = condition' ∧ body = body' ∧ line = line') (by simp)
    | .print expr line, .print expr' line', _ =>
      decidable_of_iff (expr = expr' ∧ line = line') (by simp)
    | .return value line, .return value' line', _ =>
      decidable_of_iff (value = value' ∧ line = line') (by simp)
    | .declare name initializer line, .declare name' initializer' line', _ =>
      decidable_of_iff (name = name' ∧ initializer = initializer' ∧ line = line') (by simp)
    | .function name params body line, .function name' params' body' line', _ =>
      have := Stmt.decEqAll body body'
      decidable_of_iff (name = name' ∧ params = params' ∧ body = body' ∧ line = line') (by simp)
    | .command action, .command action', _ =>
      decidable_of_iff (action = action') (by simp)
  else isFalse fun heq => h (congrArg Stmt.ctorIdx heq)

def Stmt.decEqAll (body other : List Stmt) : Decidable (body = other) :=
  match body, other with
  | [], [] => isTrue rfl
  | [], _ :: _ | _ :: _, [] => isFalse (by simp)
  | stmt :: rest, other :: others =>
    have := Stmt.decEq stmt other
    have := Stmt.decEqAll rest others
    decidable_of_iff (stmt = other ∧ rest = others) (by simp)

def Stmt.decEqOption (branch other : Option Stmt) : Decidable (branch = other) :=
  match branch, other with
  | none, none => isTrue rfl
  | none, some _ | some _, none => isFalse (by simp)
  | some stmt, some other =>
    have := Stmt.decEq stmt other
    decidable_of_iff (stmt = other) (by simp)

end

instance : DecidableEq Stmt := Stmt.decEq

end CommandScript
