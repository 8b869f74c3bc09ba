import CommandScript.Proofs.Resolution.Context
import CommandScript.Proofs.Syntax.Relabelling

/-!
# Resolution with other ids and lines

The resolution of names copies ids into its table and lines into its faults, and looks at
neither. So a program with other labels has the same distances under the other ids, and the
same faults on the other lines.

Only the ids that occur in a program matter for its relabelling.

* `resolve_relabelAll`: the resolution of a program with other labels.
* `Stmt.relabelAll_congr`: relabellings that agree on the references of a program.
-/

namespace CommandScript

/-! ## Resolution -/

/-- The distance of a reference under another id. -/
def Relabelling.entry (r : Relabelling) (recorded : NodeId × Nat) : NodeId × Nat :=
  (r.ids recorded.1, recorded.2)

namespace Resolving

def relabel (r : Relabelling) (state : Resolving) : Resolving :=
  { state with
    distances := state.distances.map r.entry
    faults := state.faults.map (Located.relabel r) }

variable (r : Relabelling) (state : Resolving)

theorem report_relabel (fault : ResolveFault) (line : Nat) :
    (state.relabel r).report fault (r.lines line) = (state.report fault line).relabel r := by
  simp only [report, relabel, Array.map_push]
  rfl

theorem declare_relabel (name : String) (line : Nat) :
    (state.relabel r).declare name (r.lines line) = (state.declare name line).relabel r := by
  obtain ⟨scopes, inFunction, distances, faults⟩ := state
  cases scopes with
  | nil => rfl
  | cons scope outer =>
    unfold declare
    dsimp only [relabel]
    split
    · exact report_relabel r ⟨scope :: outer, inFunction, distances, faults⟩ _ line
    · rfl

theorem define_relabel (name : String) :
    (state.relabel r).define name = (state.define name).relabel r := by
  obtain ⟨scopes, inFunction, distances, faults⟩ := state
  cases scopes <;> rfl

theorem bind_relabel (id : NodeId) (name : String) :
    (state.relabel r).bind (r.ids id) name = (state.bind id name).relabel r := by
  have hscopes : (state.relabel r).scopes = state.scopes := rfl
  unfold bind
  rw [hscopes]
  cases distance? state.scopes name with
  | none => rfl
  | some distance =>
    simp only [relabel, Array.map_push]
    rfl

theorem checkReady_relabel (name : String) (line : Nat) :
    (state.relabel r).checkReady name (r.lines line) = (state.checkReady name line).relabel r := by
  obtain ⟨scopes, inFunction, distances, faults⟩ := state
  cases scopes with
  | nil => rfl
  | cons scope outer =>
    unfold checkReady
    dsimp only [relabel]
    split
    · exact report_relabel r ⟨scope :: outer, inFunction, distances, faults⟩ _ line
    · rfl

theorem checkReturn_relabel (line : Nat) :
    (state.relabel r).checkReturn (r.lines line) = (state.checkReturn line).relabel r := by
  have hinside : (state.relabel r).inFunction = state.inFunction := rfl
  unfold checkReturn
  rw [hinside]
  split
  · rfl
  · exact report_relabel r state _ line

theorem declareParams_relabel (params : List Parameter) :
    (state.relabel r).declareParams (params.map (·.relabel r)) =
      (state.declareParams params).relabel r := by
  induction params generalizing state with
  | nil => rfl
  | cons param rest ih =>
    have hfirst : ((state.relabel r).declare param.name (r.lines param.line)).define param.name =
        ((state.declare param.name param.line).define param.name).relabel r := by
      rw [declare_relabel, define_relabel]
    refine Eq.trans ?_ (ih _)
    rw [← hfirst]
    rfl

end Resolving

section Resolve

variable (r : Relabelling)

mutual

theorem Expr.resolve_relabel (expr : Expr) (state : Resolving) :
    (expr.relabel r).resolve (state.relabel r) = (expr.resolve state).relabel r := by
  match expr with
  | .literal .. | .commandRef .. => rfl
  | .grouping inner _ | .unary _ inner _ => exact inner.resolve_relabel state
  | .binary _ left right _ | .logical _ left right _ =>
    simp only [Expr.relabel, Expr.resolve, left.resolve_relabel, right.resolve_relabel]
  | .variable id name line =>
    simp only [Expr.relabel, Expr.resolve, Resolving.checkReady_relabel, Resolving.bind_relabel]
  | .assign id name value line =>
    simp only [Expr.relabel, Expr.resolve, value.resolve_relabel, Resolving.bind_relabel]
  | .call callee args line =>
    simp only [Expr.relabel, Expr.resolve, callee.resolve_relabel, Expr.resolveAll_relabel args]

theorem Expr.resolveAll_relabel (exprs : List Expr) (state : Resolving) :
    Expr.resolveAll (Expr.relabelAll r exprs) (state.relabel r) =
      (Expr.resolveAll exprs state).relabel r := by
  match exprs with
  | [] => rfl
  | expr :: rest =>
    simp only [Expr.relabelAll, Expr.resolveAll, expr.resolve_relabel,
      Expr.resolveAll_relabel rest]

end

/-- What holds of each step of a fold holds of all. -/
theorem Resolving.foldl_relabel {α : Type} {relabel : α → α}
    {resolve : Resolving → α → Resolving} (hstep : ∀ state item,
      resolve (state.relabel r) (relabel item) = (resolve state item).relabel r)
    (items : List α) (state : Resolving) :
    (items.map relabel).foldl resolve (state.relabel r) =
      (items.foldl resolve state).relabel r := by
  induction items generalizing state with
  | nil => rfl
  | cons item rest ih => rw [List.map_cons, List.foldl_cons, List.foldl_cons, hstep, ih]

theorem ArgValue.resolve_relabel (value : ArgValue) (state : Resolving) :
    (value.relabel r).resolve (state.relabel r) = (value.resolve state).relabel r := by
  cases value with
  | word text => rfl
  | expr value => exact value.resolve_relabel r state

theorem Arg.resolve_relabel (arg : Arg) (state : Resolving) :
    (arg.relabel r).resolve (state.relabel r) = (arg.resolve state).relabel r := by
  cases arg with
  | positional value => exact value.resolve_relabel r state
  | flag name => rfl
  | parameter name values =>
    exact Resolving.foldl_relabel r (fun state value => value.resolve_relabel r state) values state

theorem Command.resolve_relabel (action : Command) (state : Resolving) :
    (action.relabel r).resolve (state.relabel r) = (action.resolve state).relabel r := by
  cases action with
  | deliver word args line =>
    exact Resolving.foldl_relabel r (fun state arg => arg.resolve_relabel r state) args state
  | help topic line => rfl
  | exit line => rfl

theorem Expr.resolveOption_relabel (expr : Option Expr) (state : Resolving) :
    Expr.resolveOption (expr.map (·.relabel r)) (state.relabel r) =
      (Expr.resolveOption expr state).relabel r := by
  cases expr with
  | none => rfl
  | some expr => exact expr.resolve_relabel r state

mutual

theorem Stmt.resolve_relabel (stmt : Stmt) (state : Resolving) :
    (stmt.relabel r).resolve (state.relabel r) = (stmt.resolve state).relabel r := by
  match stmt with
  | .block body =>
    have hbody := Stmt.resolveAll_relabel body state.openScope
    exact congrArg Resolving.closeScope hbody
  | .expression expr _ | .print expr _ => exact expr.resolve_relabel r state
  | .branch condition thenBranch none _ =>
    simp only [Stmt.relabel, Stmt.resolve, condition.resolve_relabel, thenBranch.resolve_relabel]
  | .branch condition thenBranch (some elseBranch) _ =>
    simp only [Stmt.relabel, Stmt.resolve, condition.resolve_relabel, thenBranch.resolve_relabel,
      elseBranch.resolve_relabel]
  | .loop condition body _ =>
    simp only [Stmt.relabel, Stmt.resolve, condition.resolve_relabel, body.resolve_relabel]
  | .return value line =>
    simp only [Stmt.relabel, Stmt.resolve, Resolving.checkReturn_relabel,
      Expr.resolveOption_relabel]
  | .declare name initializer line =>
    simp only [Stmt.relabel, Stmt.resolve, Resolving.declare_relabel, Resolving.define_relabel,
      Expr.resolveOption_relabel]
  | .function name params body line =>
    have hopened : ((state.declare name line).define name |>.relabel r).openScope =
        ((state.declare name line).define name).openScope.relabel r := rfl
    have hbody := Stmt.resolveAll_relabel body
      { ((state.declare name line).define name).openScope.declareParams params with
        inFunction := true }
    simp only [Stmt.relabel, Stmt.resolve, Resolving.declare_relabel, Resolving.define_relabel,
      hopened, Resolving.declareParams_relabel]
    exact congrArg (fun final : Resolving =>
      { final.closeScope with inFunction := state.inFunction }) hbody
  | .command action => exact action.resolve_relabel r state

theorem Stmt.resolveAll_relabel (body : List Stmt) (state : Resolving) :
    Stmt.resolveAll (Stmt.relabelAll r body) (state.relabel r) =
      (Stmt.resolveAll body state).relabel r := by
  match body with
  | [] => rfl
  | stmt :: rest =>
    simp only [Stmt.relabelAll, Stmt.resolveAll, stmt.resolve_relabel,
      Stmt.resolveAll_relabel rest]

end

theorem resolve_relabelAll (program : List Stmt) :
    resolve (Stmt.relabelAll r program) =
      ((resolve program).map (List.map r.entry)).mapError (List.map (Located.relabel r)) := by
  have hfinal := Stmt.resolveAll_relabel r program ⟨[[]], false, #[], #[]⟩
  have hstart : Resolving.relabel r ⟨[[]], false, #[], #[]⟩ = ⟨[[]], false, #[], #[]⟩ := by
    simp only [Resolving.relabel, Array.map_empty]
  rw [hstart] at hfinal
  unfold resolve
  rw [hfinal]
  obtain ⟨scopes, inFunction, distances, faults⟩ :=
    Stmt.resolveAll program ⟨[[]], false, #[], #[]⟩
  have hempty : (faults.map (Located.relabel r)).isEmpty = faults.isEmpty := by
    rw [Array.isEmpty, Array.size_map]
    rfl
  simp only [Resolving.relabel, hempty, Array.toList_map]
  cases faults.isEmpty <;> rfl

end Resolve

/-! ## Relabellings that agree -/

/-- The relabellings give the references the same ids, and all nodes the same lines. -/
structure Relabelling.AgreeOn (r r' : Relabelling) (references : List Reference) : Prop where
  ids : ∀ reference ∈ references, r.ids reference.id = r'.ids reference.id
  lines : r.lines = r'.lines

namespace Relabelling.AgreeOn

variable {r r' : Relabelling} {first second : List Reference}

theorem left (h : AgreeOn r r' (first ++ second)) : AgreeOn r r' first :=
  ⟨fun reference hmem => h.ids reference (List.mem_append_left _ hmem), h.lines⟩

theorem right (h : AgreeOn r r' (first ++ second)) : AgreeOn r r' second :=
  ⟨fun reference hmem => h.ids reference (List.mem_append_right _ hmem), h.lines⟩

/-- What agrees on all items agrees on each. -/
theorem item {α : Type} {references : α → List Reference} {items : List α}
    (h : AgreeOn r r' (items.flatMap references)) {item : α} (hitem : item ∈ items) :
    AgreeOn r r' (references item) :=
  ⟨fun reference hmem => h.ids reference (List.mem_flatMap.mpr ⟨item, hitem, hmem⟩), h.lines⟩

end Relabelling.AgreeOn

section Congr

variable {r r' : Relabelling}

mutual

theorem Expr.relabel_congr (expr : Expr) (h : r.AgreeOn r' expr.references) :
    expr.relabel r = expr.relabel r' := by
  match expr with
  | .literal .. | .commandRef .. => simp only [Expr.relabel, h.lines]
  | .grouping inner _ | .unary _ inner _ =>
    simp only [Expr.relabel, inner.relabel_congr h, h.lines]
  | .binary _ left right _ | .logical _ left right _ =>
    simp only [Expr.relabel, left.relabel_congr h.left, right.relabel_congr h.right, h.lines]
  | .variable id name line =>
    simp only [Expr.relabel, h.ids ⟨id, name, .read⟩ List.mem_cons_self, h.lines]
  | .assign id name value line =>
    simp only [Expr.relabel, value.relabel_congr h.left,
      h.right.ids ⟨id, name, .write⟩ List.mem_cons_self, h.lines]
  | .call callee args line =>
    simp only [Expr.relabel, callee.relabel_congr h.left, Expr.relabelAll_congr args h.right,
      h.lines]

theorem Expr.relabelAll_congr (exprs : List Expr) (h : r.AgreeOn r' (Expr.referencesAll exprs)) :
    Expr.relabelAll r exprs = Expr.relabelAll r' exprs := by
  match exprs with
  | [] => rfl
  | expr :: rest =>
    simp only [Expr.relabelAll, expr.relabel_congr h.left, Expr.relabelAll_congr rest h.right]

end

theorem ArgValue.relabel_congr (value : ArgValue) (h : r.AgreeOn r' value.references) :
    value.relabel r = value.relabel r' := by
  cases value with
  | word text => rfl
  | expr value => exact congrArg ArgValue.expr (value.relabel_congr h)

theorem Arg.relabel_congr (arg : Arg) (h : r.AgreeOn r' arg.references) :
    arg.relabel r = arg.relabel r' := by
  cases arg with
  | positional value => exact congrArg Arg.positional (value.relabel_congr h)
  | flag name => rfl
  | parameter name values =>
    exact congrArg (Arg.parameter name)
      (List.map_congr_left fun value hvalue => value.relabel_congr (h.item hvalue))

theorem Command.relabel_congr (action : Command) (h : r.AgreeOn r' action.references) :
    action.relabel r = action.relabel r' := by
  cases action with
  | deliver word args line =>
    have hargs : args.map (·.relabel r) = args.map (·.relabel r') :=
      List.map_congr_left fun arg harg => arg.relabel_congr (h.item harg)
    simp only [Command.relabel, hargs, h.lines]
  | help topic line => simp only [Command.relabel, h.lines]
  | exit line => simp only [Command.relabel, h.lines]

theorem Expr.map_relabel_congr (expr : Option Expr)
    (h : r.AgreeOn r' (Expr.referencesOption expr)) :
    expr.map (·.relabel r) = expr.map (·.relabel r') := by
  cases expr with
  | none => rfl
  | some expr => exact congrArg some (expr.relabel_congr h)

theorem Parameter.map_relabel_congr (hlines : r.lines = r'.lines) (params : List Parameter) :
    params.map (·.relabel r) = params.map (·.relabel r') :=
  List.map_congr_left fun param _ => by rw [Parameter.relabel, Parameter.relabel, hlines]

mutual

theorem Stmt.relabel_congr (stmt : Stmt) (h : r.AgreeOn r' stmt.references) :
    stmt.relabel r = stmt.relabel r' := by
  match stmt with
  | .block body => exact congrArg Stmt.block (Stmt.relabelAll_congr body h)
  | .expression expr _ | .print expr _ => simp only [Stmt.relabel, expr.relabel_congr h, h.lines]
  | .branch condition thenBranch none _ =>
    simp only [Stmt.relabel, condition.relabel_congr h.left, thenBranch.relabel_congr h.right,
      h.lines]
  | .branch condition thenBranch (some elseBranch) _ =>
    simp only [Stmt.relabel, condition.relabel_congr h.left.left,
      thenBranch.relabel_congr h.left.right, elseBranch.relabel_congr h.right, h.lines]
  | .loop condition body _ =>
    simp only [Stmt.relabel, condition.relabel_congr h.left, body.relabel_congr h.right, h.lines]
  | .return value _ | .declare _ value _ =>
    simp only [Stmt.relabel, Expr.map_relabel_congr value h, h.lines]
  | .function _ params body _ =>
    simp only [Stmt.relabel, Stmt.relabelAll_congr body h,
      Parameter.map_relabel_congr h.lines params, h.lines]
  | .command action => exact congrArg Stmt.command (action.relabel_congr h)

theorem Stmt.relabelAll_congr (body : List Stmt) (h : r.AgreeOn r' (Stmt.referencesAll body)) :
    Stmt.relabelAll r body = Stmt.relabelAll r' body := by
  match body with
  | [] => rfl
  | stmt :: rest =>
    simp only [Stmt.relabelAll, stmt.relabel_congr h.left, Stmt.relabelAll_congr rest h.right]

end

end Congr

end CommandScript
