import CommandScript.Fault
import CommandScript.Syntax

/-!
# Programs with other ids and lines

The ids of references and the lines of nodes are labels: they say which node is meant and
where it was read, and nothing else about a program. A relabelling gives every reference
another id and every node another line.

* `Relabelling`: a function on ids and one on lines.
* `Stmt.relabel`: a program with other labels.
* `Stmt.relabel_refl`: the relabelling that changes nothing.
-/

namespace CommandScript

structure Relabelling where
  ids : NodeId → NodeId
  lines : Nat → Nat

namespace Relabelling

/-- Every label stays as it is. -/
def refl : Relabelling := ⟨id, id⟩

theorem ids_refl (id : NodeId) : refl.ids id = id := rfl

theorem lines_refl (line : Nat) : refl.lines line = line := rfl

/-- Other ids on the same lines. -/
def ofIds (ids : NodeId → NodeId) : Relabelling := ⟨ids, id⟩

/-- The same ids on other lines. -/
def ofLines (lines : Nat → Nat) : Relabelling := ⟨id, lines⟩

end Relabelling

def Located.relabel {α : Type} (r : Relabelling) (error : Located α) : Located α :=
  { error with line := r.lines error.line }

mutual

def Expr.relabel (r : Relabelling) : Expr → Expr
  | .literal value line => .literal value (r.lines line)
  | .grouping inner line => .grouping (inner.relabel r) (r.lines line)
  | .unary op operand line => .unary op (operand.relabel r) (r.lines line)
  | .binary op left right line => .binary op (left.relabel r) (right.relabel r) (r.lines line)
  | .logical op left right line => .logical op (left.relabel r) (right.relabel r) (r.lines line)
  | .variable id name line => .variable (r.ids id) name (r.lines line)
  | .assign id name value line => .assign (r.ids id) name (value.relabel r) (r.lines line)
  | .call callee args line => .call (callee.relabel r) (Expr.relabelAll r args) (r.lines line)
  | .commandRef name line => .commandRef name (r.lines line)

def Expr.relabelAll (r : Relabelling) : List Expr → List Expr
  | [] => []
  | expr :: rest => expr.relabel r :: Expr.relabelAll r rest

end

def ArgValue.relabel (r : Relabelling) : ArgValue → ArgValue
  | .word text => .word text
  | .expr value => .expr (value.relabel r)

def Arg.relabel (r : Relabelling) : Arg → Arg
  | .positional value => .positional (value.relabel r)
  | .flag name => .flag name
  | .parameter name values => .parameter name (values.map (·.relabel r))

def Command.relabel (r : Relabelling) : Command → Command
  | .deliver word args line => .deliver word (args.map (·.relabel r)) (r.lines line)
  | .help topic line => .help topic (r.lines line)
  | .exit line => .exit (r.lines line)

def Parameter.relabel (r : Relabelling) (parameter : Parameter) : Parameter :=
  { parameter with line := r.lines parameter.line }

mutual

def Stmt.relabel (r : Relabelling) : Stmt → Stmt
  | .block body => .block (Stmt.relabelAll r body)
  | .expression expr line => .expression (expr.relabel r) (r.lines line)
  | .branch condition thenBranch none line =>
    .branch (condition.relabel r) (thenBranch.relabel r) none (r.lines line)
  | .branch condition thenBranch (some elseBranch) line =>
    .branch (condition.relabel r) (thenBranch.relabel r) (some (elseBranch.relabel r))
      (r.lines line)
  | .loop condition body line => .loop (condition.relabel r) (body.relabel r) (r.lines line)
  | .print expr line => .print (expr.relabel r) (r.lines line)
  | .return value line => .return (value.map (·.relabel r)) (r.lines line)
  | .declare name initializer line =>
    .declare name (initializer.map (·.relabel r)) (r.lines line)
  | .function name params body line =>
    .function name (params.map (·.relabel r)) (Stmt.relabelAll r body) (r.lines line)
  | .command action => .command (action.relabel r)

def Stmt.relabelAll (r : Relabelling) : List Stmt → List Stmt
  | [] => []
  | stmt :: rest => stmt.relabel r :: Stmt.relabelAll r rest

end

def FunctionDecl.relabel (r : Relabelling) (decl : FunctionDecl) : FunctionDecl :=
  { decl with body := Stmt.relabelAll r decl.body }

/-! ## Small facts -/

section Facts

variable (r : Relabelling)

theorem Expr.relabelAll_eq (exprs : List Expr) :
    Expr.relabelAll r exprs = exprs.map (·.relabel r) := by
  induction exprs with
  | nil => rfl
  | cons expr rest ih => simp only [relabelAll, ih, List.map_cons]

theorem Stmt.relabelAll_eq (body : List Stmt) :
    Stmt.relabelAll r body = body.map (·.relabel r) := by
  induction body with
  | nil => rfl
  | cons stmt rest ih => simp only [relabelAll, ih, List.map_cons]

theorem Stmt.relabel_branch (condition : Expr) (thenBranch : Stmt) (elseBranch : Option Stmt)
    (line : Nat) :
    (Stmt.branch condition thenBranch elseBranch line).relabel r =
      .branch (condition.relabel r) (thenBranch.relabel r) (elseBranch.map (·.relabel r))
        (r.lines line) := by
  cases elseBranch <;> rfl

theorem Expr.line_relabel (expr : Expr) : (expr.relabel r).line = r.lines expr.line := by
  cases expr <;> rfl

theorem Parameter.map_name_relabel (params : List Parameter) :
    (params.map (·.relabel r)).map Parameter.name = params.map Parameter.name := by
  rw [List.map_map]
  rfl

end Facts

/-! ## Nothing changed -/

mutual

theorem Expr.relabel_refl (expr : Expr) : expr.relabel .refl = expr := by
  match expr with
  | .literal .. | .variable .. | .commandRef .. => rfl
  | .grouping inner _ | .unary _ inner _ | .assign _ _ inner _ =>
    simp only [Expr.relabel, inner.relabel_refl, Relabelling.ids_refl, Relabelling.lines_refl]
  | .binary _ left right _ | .logical _ left right _ =>
    simp only [Expr.relabel, left.relabel_refl, right.relabel_refl, Relabelling.lines_refl]
  | .call callee args _ =>
    simp only [Expr.relabel, callee.relabel_refl, Expr.relabelAll_refl args, Relabelling.lines_refl]

theorem Expr.relabelAll_refl (exprs : List Expr) : Expr.relabelAll .refl exprs = exprs := by
  match exprs with
  | [] => rfl
  | expr :: rest => simp only [Expr.relabelAll, expr.relabel_refl, Expr.relabelAll_refl rest]

end

theorem ArgValue.relabel_refl (value : ArgValue) : value.relabel .refl = value := by
  cases value with
  | word text => rfl
  | expr value => exact congrArg ArgValue.expr value.relabel_refl

theorem Arg.relabel_refl (arg : Arg) : arg.relabel .refl = arg := by
  cases arg with
  | positional value => exact congrArg Arg.positional value.relabel_refl
  | flag name => rfl
  | parameter name values =>
    exact congrArg (Arg.parameter name)
      ((List.map_congr_left fun value _ => value.relabel_refl).trans (List.map_id values))

theorem Command.relabel_refl (action : Command) : action.relabel .refl = action := by
  cases action with
  | deliver word args line =>
    exact congrArg (Command.deliver word · line)
      ((List.map_congr_left fun arg _ => arg.relabel_refl).trans (List.map_id args))
  | help topic line => rfl
  | exit line => rfl

theorem Expr.map_relabel_refl (expr : Option Expr) : expr.map (·.relabel .refl) = expr := by
  cases expr with
  | none => rfl
  | some expr => exact congrArg some expr.relabel_refl

mutual

theorem Stmt.relabel_refl (stmt : Stmt) : stmt.relabel .refl = stmt := by
  match stmt with
  | .block body => simp only [Stmt.relabel, Stmt.relabelAll_refl body]
  | .expression expr _ | .print expr _ =>
    simp only [Stmt.relabel, expr.relabel_refl, Relabelling.lines_refl]
  | .branch condition thenBranch none _ =>
    simp only [Stmt.relabel, condition.relabel_refl, thenBranch.relabel_refl, Relabelling.lines_refl]
  | .branch condition thenBranch (some elseBranch) _ =>
    simp only [Stmt.relabel, condition.relabel_refl, thenBranch.relabel_refl,
      elseBranch.relabel_refl, Relabelling.lines_refl]
  | .loop condition body _ =>
    simp only [Stmt.relabel, condition.relabel_refl, body.relabel_refl, Relabelling.lines_refl]
  | .return value _ | .declare _ value _ =>
    simp only [Stmt.relabel, Expr.map_relabel_refl, Relabelling.lines_refl]
  | .function _ params body _ =>
    simp only [Stmt.relabel, Stmt.relabelAll_refl body, Relabelling.lines_refl]
    exact congrArg (Stmt.function _ · body _) (List.map_id params)
  | .command action => simp only [Stmt.relabel, action.relabel_refl]

theorem Stmt.relabelAll_refl (body : List Stmt) : Stmt.relabelAll .refl body = body := by
  match body with
  | [] => rfl
  | stmt :: rest => simp only [Stmt.relabelAll, stmt.relabel_refl, Stmt.relabelAll_refl rest]

end

end CommandScript
