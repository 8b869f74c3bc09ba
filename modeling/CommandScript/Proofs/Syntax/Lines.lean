import CommandScript.Proofs.Syntax.Relabelling

/-!
# Programs up to lines

The same program may stand on other lines of a text. A function on line numbers carries
over to all nodes of a program and changes nothing else; carrying over one function after
another is the same as carrying over both at once.

* `Stmt.mapLines`: a program on other lines.
* `Stmt.mapLines_mapLines`, `Stmt.mapLines_id`: the laws of carrying over.
* `Stmt.mapLines_eq_relabel`: carrying over as a relabelling.
* `Stmt.unlinedAll`: a program without its lines.
-/

namespace CommandScript

def Token.mapLines (f : Nat → Nat) (token : Token) : Token := { token with line := f token.line }

@[simp] theorem Token.kind_mapLines (f : Nat → Nat) (token : Token) :
    (token.mapLines f).kind = token.kind :=
  rfl

mutual

def Expr.mapLines (f : Nat → Nat) : Expr → Expr
  | .literal value line => .literal value (f line)
  | .grouping inner line => .grouping (inner.mapLines f) (f line)
  | .unary op operand line => .unary op (operand.mapLines f) (f line)
  | .binary op left right line => .binary op (left.mapLines f) (right.mapLines f) (f line)
  | .logical op left right line => .logical op (left.mapLines f) (right.mapLines f) (f line)
  | .variable id name line => .variable id name (f line)
  | .assign id name value line => .assign id name (value.mapLines f) (f line)
  | .call callee args line => .call (callee.mapLines f) (Expr.mapLinesAll f args) (f line)
  | .commandRef name line => .commandRef name (f line)

def Expr.mapLinesAll (f : Nat → Nat) : List Expr → List Expr
  | [] => []
  | expr :: rest => expr.mapLines f :: Expr.mapLinesAll f rest

end

def ArgValue.mapLines (f : Nat → Nat) : ArgValue → ArgValue
  | .word text => .word text
  | .expr value => .expr (value.mapLines f)

def Arg.mapLines (f : Nat → Nat) : Arg → Arg
  | .positional value => .positional (value.mapLines f)
  | .flag name => .flag name
  | .parameter name values => .parameter name (values.map (·.mapLines f))

def Command.mapLines (f : Nat → Nat) : Command → Command
  | .deliver word args line => .deliver word (args.map (·.mapLines f)) (f line)
  | .help topic line => .help topic (f line)
  | .exit line => .exit (f line)

def Parameter.mapLines (f : Nat → Nat) (parameter : Parameter) : Parameter :=
  { parameter with line := f parameter.line }

mutual

def Stmt.mapLines (f : Nat → Nat) : Stmt → Stmt
  | .block body => .block (Stmt.mapLinesAll f body)
  | .expression expr line => .expression (expr.mapLines f) (f line)
  | .branch condition thenBranch none line =>
    .branch (condition.mapLines f) (thenBranch.mapLines f) none (f line)
  | .branch condition thenBranch (some elseBranch) line =>
    .branch (condition.mapLines f) (thenBranch.mapLines f) (some (elseBranch.mapLines f)) (f line)
  | .loop condition body line => .loop (condition.mapLines f) (body.mapLines f) (f line)
  | .print expr line => .print (expr.mapLines f) (f line)
  | .return value line => .return (value.map (·.mapLines f)) (f line)
  | .declare name initializer line => .declare name (initializer.map (·.mapLines f)) (f line)
  | .function name params body line =>
    .function name (params.map (·.mapLines f)) (Stmt.mapLinesAll f body) (f line)
  | .command action => .command (action.mapLines f)

def Stmt.mapLinesAll (f : Nat → Nat) : List Stmt → List Stmt
  | [] => []
  | stmt :: rest => stmt.mapLines f :: Stmt.mapLinesAll f rest

end

def FunctionDecl.mapLines (f : Nat → Nat) (decl : FunctionDecl) : FunctionDecl :=
  { decl with body := Stmt.mapLinesAll f decl.body }

/-! ## Small facts -/

theorem Expr.mapLinesAll_eq (f : Nat → Nat) (exprs : List Expr) :
    Expr.mapLinesAll f exprs = exprs.map (·.mapLines f) := by
  induction exprs with
  | nil => rfl
  | cons expr rest ih => simp only [mapLinesAll, ih, List.map_cons]

theorem Stmt.mapLinesAll_eq (f : Nat → Nat) (body : List Stmt) :
    Stmt.mapLinesAll f body = body.map (·.mapLines f) := by
  induction body with
  | nil => rfl
  | cons stmt rest ih => simp only [mapLinesAll, ih, List.map_cons]

theorem Stmt.mapLines_branch (f : Nat → Nat) (condition : Expr) (thenBranch : Stmt)
    (elseBranch : Option Stmt) (line : Nat) :
    (Stmt.branch condition thenBranch elseBranch line).mapLines f =
      .branch (condition.mapLines f) (thenBranch.mapLines f) (elseBranch.map (·.mapLines f))
        (f line) := by
  cases elseBranch <;> rfl

theorem Expr.line_mapLines (f : Nat → Nat) (expr : Expr) :
    (expr.mapLines f).line = f expr.line := by
  cases expr <;> rfl

/-! ## Laws -/

section Laws

variable (f g : Nat → Nat)

mutual

theorem Expr.mapLines_mapLines (expr : Expr) :
    (expr.mapLines f).mapLines g = expr.mapLines (g ∘ f) := by
  match expr with
  | .literal .. | .variable .. | .commandRef .. => rfl
  | .grouping inner _ | .unary _ inner _ | .assign _ _ inner _ =>
    simp only [Expr.mapLines, inner.mapLines_mapLines, Function.comp_apply]
  | .binary _ left right _ | .logical _ left right _ =>
    simp only [Expr.mapLines, left.mapLines_mapLines, right.mapLines_mapLines,
      Function.comp_apply]
  | .call callee args _ =>
    simp only [Expr.mapLines, callee.mapLines_mapLines, Expr.mapLinesAll_mapLinesAll args,
      Function.comp_apply]

theorem Expr.mapLinesAll_mapLinesAll (exprs : List Expr) :
    Expr.mapLinesAll g (Expr.mapLinesAll f exprs) = Expr.mapLinesAll (g ∘ f) exprs := by
  match exprs with
  | [] => rfl
  | expr :: rest =>
    simp only [Expr.mapLinesAll, expr.mapLines_mapLines, Expr.mapLinesAll_mapLinesAll rest]

end

theorem ArgValue.mapLines_mapLines (value : ArgValue) :
    (value.mapLines f).mapLines g = value.mapLines (g ∘ f) := by
  cases value with
  | word text => rfl
  | expr value => exact congrArg ArgValue.expr (value.mapLines_mapLines f g)

theorem Arg.mapLines_mapLines (arg : Arg) :
    (arg.mapLines f).mapLines g = arg.mapLines (g ∘ f) := by
  cases arg with
  | positional value => exact congrArg Arg.positional (value.mapLines_mapLines f g)
  | flag name => rfl
  | parameter name values =>
    simp only [Arg.mapLines, List.map_map]
    exact congrArg (Arg.parameter name)
      (List.map_congr_left fun value _ => value.mapLines_mapLines f g)

theorem Command.mapLines_mapLines (action : Command) :
    (action.mapLines f).mapLines g = action.mapLines (g ∘ f) := by
  cases action with
  | deliver word args line =>
    simp only [Command.mapLines, List.map_map, Function.comp_apply]
    exact congrArg (Command.deliver word · _)
      (List.map_congr_left fun arg _ => arg.mapLines_mapLines f g)
  | help topic line => rfl
  | exit line => rfl

theorem Expr.map_mapLines_mapLines (expr : Option Expr) :
    (expr.map (·.mapLines f)).map (·.mapLines g) = expr.map (·.mapLines (g ∘ f)) := by
  cases expr with
  | none => rfl
  | some expr => exact congrArg some (expr.mapLines_mapLines f g)

mutual

theorem Stmt.mapLines_mapLines (stmt : Stmt) :
    (stmt.mapLines f).mapLines g = stmt.mapLines (g ∘ f) := by
  match stmt with
  | .block body => simp only [Stmt.mapLines, Stmt.mapLinesAll_mapLinesAll body]
  | .expression expr _ | .print expr _ =>
    simp only [Stmt.mapLines, expr.mapLines_mapLines, Function.comp_apply]
  | .branch condition thenBranch none _ =>
    simp only [Stmt.mapLines, condition.mapLines_mapLines, thenBranch.mapLines_mapLines,
      Function.comp_apply]
  | .branch condition thenBranch (some elseBranch) _ =>
    simp only [Stmt.mapLines, condition.mapLines_mapLines, thenBranch.mapLines_mapLines,
      elseBranch.mapLines_mapLines, Function.comp_apply]
  | .loop condition body _ =>
    simp only [Stmt.mapLines, condition.mapLines_mapLines, body.mapLines_mapLines,
      Function.comp_apply]
  | .return value _ | .declare _ value _ =>
    simp only [Stmt.mapLines, Expr.map_mapLines_mapLines, Function.comp_apply]
  | .function _ params body _ =>
    simp only [Stmt.mapLines, Stmt.mapLinesAll_mapLinesAll body, List.map_map,
      Function.comp_apply]
    rfl
  | .command action => simp only [Stmt.mapLines, action.mapLines_mapLines]

theorem Stmt.mapLinesAll_mapLinesAll (body : List Stmt) :
    Stmt.mapLinesAll g (Stmt.mapLinesAll f body) = Stmt.mapLinesAll (g ∘ f) body := by
  match body with
  | [] => rfl
  | stmt :: rest =>
    simp only [Stmt.mapLinesAll, stmt.mapLines_mapLines, Stmt.mapLinesAll_mapLinesAll rest]

end

end Laws

/-! ## Lines as labels -/

section Labels

variable (f : Nat → Nat)

mutual

theorem Expr.mapLines_eq_relabel (expr : Expr) : expr.mapLines f = expr.relabel (.ofLines f) := by
  match expr with
  | .literal .. | .variable .. | .commandRef .. => rfl
  | .grouping inner _ | .unary _ inner _ | .assign _ _ inner _ =>
    simp only [Expr.mapLines, inner.mapLines_eq_relabel, Expr.relabel]
    rfl
  | .binary _ left right _ | .logical _ left right _ =>
    simp only [Expr.mapLines, left.mapLines_eq_relabel, right.mapLines_eq_relabel, Expr.relabel]
    rfl
  | .call callee args _ =>
    simp only [Expr.mapLines, callee.mapLines_eq_relabel, Expr.mapLinesAll_eq_relabelAll args,
      Expr.relabel]
    rfl

theorem Expr.mapLinesAll_eq_relabelAll (exprs : List Expr) :
    Expr.mapLinesAll f exprs = Expr.relabelAll (.ofLines f) exprs := by
  match exprs with
  | [] => rfl
  | expr :: rest =>
    simp only [Expr.mapLinesAll, expr.mapLines_eq_relabel, Expr.mapLinesAll_eq_relabelAll rest,
      Expr.relabelAll]

end

theorem ArgValue.mapLines_eq_relabel (value : ArgValue) :
    value.mapLines f = value.relabel (.ofLines f) := by
  cases value with
  | word text => rfl
  | expr value => exact congrArg ArgValue.expr (value.mapLines_eq_relabel f)

theorem Arg.mapLines_eq_relabel (arg : Arg) : arg.mapLines f = arg.relabel (.ofLines f) := by
  cases arg with
  | positional value => exact congrArg Arg.positional (value.mapLines_eq_relabel f)
  | flag name => rfl
  | parameter name values =>
    exact congrArg (Arg.parameter name)
      (List.map_congr_left fun value _ => value.mapLines_eq_relabel f)

theorem Command.mapLines_eq_relabel (action : Command) :
    action.mapLines f = action.relabel (.ofLines f) := by
  cases action with
  | deliver word args line =>
    exact congrArg (Command.deliver word · (f line))
      (List.map_congr_left fun arg _ => arg.mapLines_eq_relabel f)
  | help topic line => rfl
  | exit line => rfl

theorem Expr.map_mapLines_eq_relabel (expr : Option Expr) :
    expr.map (·.mapLines f) = expr.map (·.relabel (.ofLines f)) := by
  cases expr with
  | none => rfl
  | some expr => exact congrArg some (expr.mapLines_eq_relabel f)

mutual

theorem Stmt.mapLines_eq_relabel (stmt : Stmt) : stmt.mapLines f = stmt.relabel (.ofLines f) := by
  match stmt with
  | .block body => exact congrArg Stmt.block (Stmt.mapLinesAll_eq_relabelAll body)
  | .expression expr _ | .print expr _ =>
    simp only [Stmt.mapLines, expr.mapLines_eq_relabel, Stmt.relabel]
    rfl
  | .branch condition thenBranch none _ =>
    simp only [Stmt.mapLines, condition.mapLines_eq_relabel, thenBranch.mapLines_eq_relabel,
      Stmt.relabel]
    rfl
  | .branch condition thenBranch (some elseBranch) _ =>
    simp only [Stmt.mapLines, condition.mapLines_eq_relabel, thenBranch.mapLines_eq_relabel,
      elseBranch.mapLines_eq_relabel, Stmt.relabel]
    rfl
  | .loop condition body _ =>
    simp only [Stmt.mapLines, condition.mapLines_eq_relabel, body.mapLines_eq_relabel,
      Stmt.relabel]
    rfl
  | .return value _ | .declare _ value _ =>
    simp only [Stmt.mapLines, Expr.map_mapLines_eq_relabel, Stmt.relabel]
    rfl
  | .function _ params body _ =>
    simp only [Stmt.mapLines, Stmt.mapLinesAll_eq_relabelAll body, Stmt.relabel]
    rfl
  | .command action => exact congrArg Stmt.command (action.mapLines_eq_relabel f)

theorem Stmt.mapLinesAll_eq_relabelAll (body : List Stmt) :
    Stmt.mapLinesAll f body = Stmt.relabelAll (.ofLines f) body := by
  match body with
  | [] => rfl
  | stmt :: rest =>
    simp only [Stmt.mapLinesAll, stmt.mapLines_eq_relabel, Stmt.mapLinesAll_eq_relabelAll rest,
      Stmt.relabelAll]

end

end Labels

theorem Stmt.mapLines_id (stmt : Stmt) : stmt.mapLines id = stmt :=
  (stmt.mapLines_eq_relabel id).trans stmt.relabel_refl

/-! ## Without lines -/

/-- The expression on no line in particular. -/
def Expr.unlined (expr : Expr) : Expr := expr.mapLines fun _ => 0

def Arg.unlined (arg : Arg) : Arg := arg.mapLines fun _ => 0

def Stmt.unlined (stmt : Stmt) : Stmt := stmt.mapLines fun _ => 0

def Stmt.unlinedAll (body : List Stmt) : List Stmt := Stmt.mapLinesAll (fun _ => 0) body

def FunctionDecl.unlined (decl : FunctionDecl) : FunctionDecl := decl.mapLines fun _ => 0

theorem Stmt.unlinedAll_mapLinesAll (f : Nat → Nat) (body : List Stmt) :
    Stmt.unlinedAll (Stmt.mapLinesAll f body) = Stmt.unlinedAll body :=
  Stmt.mapLinesAll_mapLinesAll f _ body

end CommandScript
