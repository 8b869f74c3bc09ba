import CommandScript.Proofs.Resolution.Context

/-!
# What resolution records

Resolution keeps the open scopes in step with the context of the point that it has come
to. At each occurrence it records the distance that the occurrence has in its context, and
finds a fault unless the occurrence is permitted. This holds whether or not there were
faults before, since a name that is declared twice leaves the scope as it is, in the
context as in resolution.

* `Resolving.Passes`: resolution has come from one point to another past some occurrences.
* `Stmt.passes`: resolving a statement passes its occurrences.
* `resolve_eq_ok_iff`: the programs that resolution accepts, and their distances.
-/

namespace CommandScript

namespace Resolving

/-- The open scopes are those of the context. -/
structure At (state : Resolving) (context : Context) : Prop where
  scopes : state.scopes = context.scopes
  inFunction : state.inFunction = context.inFunction

/-- Resolution has come from `before` past some occurrences to `after`, in context `next`. -/
structure Passes (before after : Resolving) (next : Context) (passed : List Occurrence) :
    Prop where
  point : after.At next
  distances : after.distances.toList =
    before.distances.toList ++ passed.filterMap Occurrence.recorded?
  faults : after.faults = #[] ↔
    before.faults = #[] ∧ ∀ occurrence ∈ passed, occurrence.Permitted

namespace Passes

theorem refl {state : Resolving} {context : Context} (h : state.At context) :
    state.Passes state context [] where
  point := h
  distances := (List.append_nil _).symm
  faults := by simp

theorem trans {a b c : Resolving} {context next : Context} {first second : List Occurrence}
    (hab : a.Passes b context first) (hbc : b.Passes c next second) :
    a.Passes c next (first ++ second) where
  point := hbc.point
  distances := by
    rw [hbc.distances, hab.distances, List.filterMap_append, List.append_assoc]
  faults := by
    rw [hbc.faults, hab.faults, List.forall_mem_append, and_assoc]

/-- The same in a scope that is opened before and closed afterwards. -/
theorem within {before opened last closed : Resolving} {inner context : Context}
    {passed : List Occurrence} (h : opened.Passes last inner passed) (hpoint : closed.At context)
    (hopened : opened.distances = before.distances ∧ opened.faults = before.faults)
    (hclosed : closed.distances = last.distances ∧ closed.faults = last.faults) :
    before.Passes closed context passed where
  point := hpoint
  distances := by rw [hclosed.1, h.distances, hopened.1]
  faults := by rw [hclosed.2, h.faults, hopened.2]

end Passes

/-! ## Single points -/

section Points

variable {state after : Resolving} {context next : Context} {occurrence : Occurrence}
  {fault : ResolveFault} {line : Nat}

/-- An occurrence that is passed without a fault. -/
theorem passes_permitted (hpoint : after.At next) (hpermitted : occurrence.Permitted)
    (hfaults : after.faults = state.faults)
    (hdistances : after.distances.toList =
      state.distances.toList ++ occurrence.recorded?.toList) :
    state.Passes after next [occurrence] where
  point := hpoint
  distances := by
    rw [hdistances]
    cases h : occurrence.recorded? <;> simp [h]
  faults := by simp [hfaults, hpermitted]

/-- A declaration or `return` with a fault. -/
theorem passes_report (hpoint : (state.report fault line).At next)
    (hfault : ¬ occurrence.Permitted) (hnone : occurrence.recorded? = none) :
    state.Passes (state.report fault line) next [occurrence] where
  point := hpoint
  distances := by simp [report, hnone]
  faults := by simp [report, hfault]

@[simp] theorem origin_declare (level : Level) (name : String) :
    (level.declare name).origin = level.origin := by
  unfold Level.declare
  split <;> rfl

theorem inFunction_declare (context : Context) (name : String) :
    (context.declare name).inFunction = context.inFunction := by
  cases context with
  | nil => rfl
  | cons level outer => simp [Context.declare, Context.mapHead, Context.inFunction]

theorem inFunction_define (context : Context) (name : String) :
    (context.define name).inFunction = context.inFunction := by
  cases context <;> rfl

theorem At.declare (h : state.At context) (name : String) (line : Nat) :
    state.Passes (state.declare name line) (context.declare name)
      [⟨context, .declare name⟩] := by
  have hinside := h.inFunction.trans (inFunction_declare context name).symm
  cases context with
  | nil =>
    have heq : state.declare name line = state := by
      rw [Resolving.declare, h.scopes]
      rfl
    rw [heq]
    exact passes_permitted h trivial rfl (List.append_nil _).symm
  | cons level outer =>
    have hscopes : state.scopes = level.names :: Context.scopes outer := h.scopes
    cases hdeclared : level.names.declares name with
    | true =>
      have heq : state.declare name line = state.report (.alreadyDeclared name) line := by
        simp only [Resolving.declare, hscopes, hdeclared, if_true]
      rw [heq]
      refine passes_report ⟨?_, hinside⟩ (fun hpermitted => ?_) rfl
      · simp [report, hscopes, Context.declare, Context.mapHead, Context.scopes, Level.declare,
          hdeclared]
      · exact absurd (hdeclared.symm.trans hpermitted) (by simp)
    | false =>
      have heq : state.declare name line =
          { state with scopes := (⟨name, false⟩ :: level.names) :: Context.scopes outer } := by
        simp [Resolving.declare, hscopes, hdeclared]
      rw [heq]
      refine passes_permitted ⟨?_, hinside⟩ hdeclared rfl (List.append_nil _).symm
      simp [Context.declare, Context.mapHead, Context.scopes, Level.declare, hdeclared]

theorem At.define (h : state.At context) (name : String) :
    state.Passes (state.define name) (context.define name) [] := by
  have hinside := h.inFunction.trans (inFunction_define context name).symm
  cases context with
  | nil =>
    have heq : state.define name = state := by
      rw [Resolving.define, h.scopes]
      rfl
    rw [heq]
    exact .refl h
  | cons level outer =>
    have heq : state.define name =
        { state with scopes := level.names.markReady name :: Context.scopes outer } := by
      rw [Resolving.define, h.scopes]
      rfl
    rw [heq]
    exact ⟨⟨rfl, hinside⟩, (List.append_nil _).symm, by simp⟩

theorem At.checkReturn (h : state.At context) (line : Nat) :
    state.Passes (state.checkReturn line) context [⟨context, .leave⟩] := by
  have hpermitted : (⟨context, .leave⟩ : Occurrence).Permitted ↔ state.inFunction = true := by
    rw [h.inFunction]
    cases context <;> exact Iff.rfl
  unfold Resolving.checkReturn
  split
  · rename_i hinside
    exact passes_permitted h (hpermitted.mpr hinside) rfl (List.append_nil _).symm
  · rename_i houtside
    exact passes_report ⟨h.scopes, h.inFunction⟩ (mt hpermitted.mp houtside) rfl

theorem bind_eq (h : state.At context) (id : NodeId) (name : String) :
    (state.bind id name).At context ∧
      (state.bind id name).faults = state.faults ∧
      (state.bind id name).distances.toList = state.distances.toList ++
        ((distance? context.scopes name).map (id, ·)).toList := by
  unfold Resolving.bind
  rw [h.scopes]
  split
  · rename_i distance hdistance
    exact ⟨⟨rfl, h.inFunction⟩, rfl, by simp [hdistance]⟩
  · rename_i hnone
    exact ⟨h, rfl, by simp [hnone]⟩

theorem At.write (h : state.At context) (id : NodeId) (name : String) :
    state.Passes (state.bind id name) context [⟨context, .mention ⟨id, name, .write⟩⟩] := by
  obtain ⟨hpoint, hfaults, hdistances⟩ := bind_eq h id name
  refine passes_permitted hpoint ?_ hfaults hdistances
  cases context <;> trivial

theorem At.checkReady (h : state.At context) (id : NodeId) (name : String) (line : Nat) :
    (state.checkReady name line).At context ∧
      (state.checkReady name line).distances = state.distances ∧
      ((state.checkReady name line).faults = #[] ↔
        state.faults = #[] ∧ (⟨context, .mention ⟨id, name, .read⟩⟩ : Occurrence).Permitted) := by
  unfold Resolving.checkReady
  rw [h.scopes]
  cases context with
  | nil => exact ⟨h, rfl, by simp [Context.scopes, Occurrence.Permitted]⟩
  | cons level outer =>
    simp only [Context.scopes, List.map_cons]
    split
    · rename_i hpending
      refine ⟨⟨h.scopes, h.inFunction⟩, rfl, ?_⟩
      simp [report, Occurrence.Permitted, hpending]
    · rename_i hready
      refine ⟨h, rfl, ?_⟩
      simp [Occurrence.Permitted, hready]

theorem At.read (h : state.At context) (id : NodeId) (name : String) (line : Nat) :
    state.Passes ((state.checkReady name line).bind id name) context
      [⟨context, .mention ⟨id, name, .read⟩⟩] := by
  obtain ⟨hready, hsame, hpermitted⟩ := h.checkReady id name line
  obtain ⟨hpoint, hfaults, hdistances⟩ := bind_eq hready id name
  refine ⟨hpoint, ?_, ?_⟩
  · rw [hdistances, hsame]
    cases hd : distance? context.scopes name <;>
      simp [Occurrence.recorded?, Occurrence.reference?, hd]
  · simp [hfaults, hpermitted]

theorem At.declareParams (params : List Parameter) {level : Level} {outer : Context}
    (h : state.At (level :: outer)) :
    state.Passes (state.declareParams params)
      (level.withParams (params.map Parameter.name) :: outer)
      (level.paramOccurrences outer (params.map Parameter.name)) := by
  induction params generalizing state level with
  | nil => exact .refl h
  | cons param rest ih =>
    have hdeclare := h.declare param.name param.line
    have hdefine := hdeclare.point.define param.name
    exact (hdeclare.trans hdefine).trans (ih hdefine.point)

/-- Entering a function and declaring its parameters may be done in either order. -/
theorem declareParams_inFunction (params : List Parameter) (state : Resolving)
    (inside : Bool) :
    { state.declareParams params with inFunction := inside } =
      { state with inFunction := inside }.declareParams params := by
  induction params generalizing state with
  | nil => rfl
  | cons param rest ih =>
    refine (ih _).trans (congrArg (fun state => Resolving.declareParams state rest) ?_)
    obtain ⟨scopes, _, _, _⟩ := state
    cases scopes with
    | nil => rfl
    | cons scope outer =>
      simp only [Resolving.declare]
      split <;> rfl

theorem At.enterFunction (h : state.At context) (decl : FunctionDecl) :
    { state.openScope with inFunction := true }.At (⟨.function decl, []⟩ :: context) where
  scopes := congrArg ([] :: ·) h.scopes
  inFunction := rfl

end Points

/-! ## Expressions -/

section Expressions

variable {state : Resolving} {context : Context}

theorem Passes.append {a b c : Resolving} {first second : List Reference}
    (hab : a.Passes b context (context.occurrences first))
    (hbc : b.Passes c context (context.occurrences second)) :
    a.Passes c context (context.occurrences (first ++ second)) := by
  rw [Context.occurrences_append]
  exact hab.trans hbc

/-- Passing a list, element by element. -/
theorem passes_foldl {α : Type} {step : Resolving → α → Resolving} {references : α → List Reference}
    (hstep : ∀ (item : α) {state : Resolving}, state.At context →
      state.Passes (step state item) context (context.occurrences (references item)))
    (items : List α) (h : state.At context) :
    state.Passes (items.foldl step state) context
      (context.occurrences (items.flatMap references)) := by
  induction items generalizing state with
  | nil => exact .refl h
  | cons item rest ih =>
    have hitem := hstep item h
    exact hitem.append (ih hitem.point)

end Expressions

end Resolving

open Resolving

mutual

theorem Expr.passes (expr : Expr) {state : Resolving} {context : Context}
    (h : state.At context) :
    state.Passes (expr.resolve state) context (context.occurrences expr.references) := by
  match expr with
  | .literal _ _ | .commandRef _ _ => exact .refl h
  | .grouping inner _ => exact inner.passes h
  | .unary _ operand _ => exact operand.passes h
  | .binary _ left right _ | .logical _ left right _ =>
    have hleft := left.passes h
    exact hleft.append (right.passes hleft.point)
  | .variable id name line => exact h.read id name line
  | .assign id name value _ =>
    have hvalue := value.passes h
    exact hvalue.append (hvalue.point.write id name)
  | .call callee args _ =>
    have hcallee := callee.passes h
    exact hcallee.append (Expr.passesAll args hcallee.point)

theorem Expr.passesAll (exprs : List Expr) {state : Resolving} {context : Context}
    (h : state.At context) :
    state.Passes (Expr.resolveAll exprs state) context
      (context.occurrences (Expr.referencesAll exprs)) := by
  match exprs with
  | [] => exact .refl h
  | expr :: rest =>
    have hexpr := expr.passes h
    exact hexpr.append (Expr.passesAll rest hexpr.point)

end

theorem Stmt.after_cons (stmt : Stmt) (level : Level) (outer : Context) :
    ∃ next : Level, stmt.after (level :: outer) = next :: outer ∧
      next.origin = level.origin := by
  cases h : stmt.declared? with
  | none => exact ⟨level, Stmt.after_of_not_declared h _, rfl⟩
  | some name =>
    exact ⟨(level.declare name).define name, Stmt.after_of_declared h _, origin_declare level name⟩

theorem Stmt.afterAll_cons (body : List Stmt) (level : Level) (outer : Context) :
    ∃ next : Level, Stmt.afterAll body (level :: outer) = next :: outer ∧
      next.origin = level.origin := by
  induction body generalizing level with
  | nil => exact ⟨level, rfl, rfl⟩
  | cons stmt rest ih =>
    obtain ⟨middle, hmiddle, horigin⟩ := stmt.after_cons level outer
    obtain ⟨next, hnext, hsame⟩ := ih middle
    refine ⟨next, ?_, hsame.trans horigin⟩
    rw [Stmt.afterAll, hmiddle, hnext]

section Statements

variable {state : Resolving} {context : Context}

theorem Expr.passesOption (expr : Option Expr) (h : state.At context) :
    state.Passes (Expr.resolveOption expr state) context
      (context.occurrences (Expr.referencesOption expr)) := by
  cases expr with
  | none => exact .refl h
  | some expr => exact expr.passes h

theorem ArgValue.passes (value : ArgValue) (h : state.At context) :
    state.Passes (value.resolve state) context (context.occurrences value.references) := by
  cases value with
  | word => exact .refl h
  | expr value => exact value.passes h

theorem Arg.passes (arg : Arg) (h : state.At context) :
    state.Passes (arg.resolve state) context (context.occurrences arg.references) := by
  cases arg with
  | positional value => exact value.passes h
  | flag => exact .refl h
  | parameter name values => exact passes_foldl (fun value _ h => value.passes h) values h

theorem Command.passes (action : Command) (h : state.At context) :
    state.Passes (action.resolve state) context (context.occurrences action.references) := by
  cases action with
  | deliver word args => exact passes_foldl (fun arg _ h => arg.passes h) args h
  | help | exit => exact .refl h

end Statements

mutual

/-- Resolving a structured statement passes its occurrences. -/
theorem Stmt.passes (stmt : Stmt) (hstructured : stmt.Structured) {state : Resolving}
    {context : Context} (h : state.At context) :
    state.Passes (stmt.resolve state) (stmt.after context) (stmt.occurrences context) := by
  match stmt, hstructured with
  | .block body, hbody =>
    have hopen : state.openScope.At (.ofBlock body :: context) :=
      ⟨congrArg ([] :: ·) h.scopes, h.inFunction⟩
    have hpassed := Stmt.passesAll body hbody hopen
    obtain ⟨level, hafter, horigin⟩ := Stmt.afterAll_cons body (.ofBlock body) context
    rw [hafter] at hpassed
    refine hpassed.within ⟨congrArg List.tail hpassed.point.scopes, ?_⟩ ⟨rfl, rfl⟩ ⟨rfl, rfl⟩
    refine hpassed.point.inFunction.trans ?_
    simp only [Context.inFunction, List.any_cons, horigin]
    rfl
  | .expression expr _, _ => exact expr.passes h
  | .branch condition thenBranch none _, ⟨hthen, hthenBody⟩ =>
    have hcondition := condition.passes h
    have hpassed := thenBranch.passes hthenBody hcondition.point
    rw [Stmt.after_of_not_declared hthen] at hpassed
    exact hcondition.trans hpassed
  | .branch condition thenBranch (some elseBranch) _, ⟨⟨hthen, hthenBody⟩, helse, helseBody⟩ =>
    have hcondition := condition.passes h
    have hfirst := thenBranch.passes hthenBody hcondition.point
    rw [Stmt.after_of_not_declared hthen] at hfirst
    have hsecond := elseBranch.passes helseBody hfirst.point
    rw [Stmt.after_of_not_declared helse] at hsecond
    exact (hcondition.trans hfirst).trans hsecond
  | .loop condition body _, ⟨hbody, hstructured⟩ =>
    have hcondition := condition.passes h
    have hpassed := body.passes hstructured hcondition.point
    rw [Stmt.after_of_not_declared hbody] at hpassed
    exact hcondition.trans hpassed
  | .print expr _, _ => exact expr.passes h
  | .return value line, _ =>
    have hleave := h.checkReturn line
    exact hleave.trans (Expr.passesOption value hleave.point)
  | .declare name initializer line, _ =>
    have hdeclared := h.declare name line
    have hinitialized := hdeclared.trans (Expr.passesOption initializer hdeclared.point)
    have hpassed := hinitialized.trans (hinitialized.point.define name)
    rw [List.append_nil] at hpassed
    exact hpassed
  | .function name params body line, hbody =>
    have hdeclared := h.declare name line
    have hdefined := hdeclared.trans (hdeclared.point.define name)
    have hopen := hdefined.point.enterFunction ⟨name, params.map Parameter.name, body⟩
    have hparams := hopen.declareParams params
    have hpassed := hparams.trans (Stmt.passesAll body hbody hparams.point)
    obtain ⟨level, hafter, -⟩ := Stmt.afterAll_cons body
      (.ofFunction ⟨name, params.map Parameter.name, body⟩) ((context.declare name).define name)
    have hlast := congrArg List.tail (hafter ▸ hpassed.point.scopes)
    have hinside := h.inFunction.trans
      ((inFunction_declare context name).symm.trans (inFunction_define _ name).symm)
    rw [Stmt.resolve, declareParams_inFunction]
    exact hdefined.trans (hpassed.within ⟨hlast, hinside⟩ ⟨rfl, rfl⟩ ⟨rfl, rfl⟩)
  | .command action, _ => exact action.passes h

theorem Stmt.passesAll (body : List Stmt) (hstructured : Stmt.StructuredAll body)
    {state : Resolving} {context : Context} (h : state.At context) :
    state.Passes (Stmt.resolveAll body state) (Stmt.afterAll body context)
      (Stmt.occurrencesAll body context) := by
  match body, hstructured with
  | [], _ => exact .refl h
  | stmt :: rest, ⟨hstmt, hrest⟩ =>
    have hpassed := stmt.passes hstmt h
    exact hpassed.trans (Stmt.passesAll rest hrest hpassed.point)

end

/-! ## Programs -/

theorem Resolving.at_top : At ⟨[[]], false, #[], #[]⟩ Context.top := ⟨rfl, rfl⟩

/-- Of the structured programs, resolution accepts those without a fault, and it records
the distances of all their references. -/
theorem resolve_eq_ok_iff {program : List Stmt} (hstructured : Stmt.StructuredAll program)
    {distances : List (NodeId × Nat)} :
    resolve program = .ok distances ↔
      Stmt.Accepted program ∧
        distances = (Stmt.occurrencesAll program .top).filterMap Occurrence.recorded? := by
  have hpassed := Stmt.passesAll program hstructured Resolving.at_top
  have hdistances := hpassed.distances
  have hfaults := hpassed.faults
  simp only [List.nil_append, true_and] at hdistances hfaults
  unfold resolve
  dsimp only
  simp only [Array.isEmpty_iff, hdistances]
  split
  · rename_i hnone
    have haccepted : Stmt.Accepted program := ⟨hstructured, hfaults.mp hnone⟩
    simp [haccepted, eq_comm]
  · rename_i hsome
    have hnot : ¬ Stmt.Accepted program := fun h => hsome (hfaults.mpr h.permitted)
    simp [hnot]

end CommandScript
