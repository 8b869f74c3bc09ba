import CommandScript.Proofs.Machine.Agreement
import CommandScript.Proofs.Machine.Relabelling
import CommandScript.Proofs.Scope.Lines

/-!
# Machines without lines

Lines are for messages only: a machine whose program and whose values stand on no line
takes the same steps, up to the lines of its faults. What modules answer to a command is
left out as well; it changes nothing. To take the lines away is to relabel: every id stays,
and every node stands on line 0.

* `Machine.unlined`: a machine without lines.
* `Setting.NativesOnlyReportLines`: natives use lines for messages only.
* `Machine.unlined_eq_relabel`: a machine without lines is one with other labels.
* `Machine.unlined_after`: a run without lines.
-/

namespace CommandScript

/-! ## Effects and modules -/

def Located.unlined {α : Type} (error : Located α) : Located α := ⟨error.cause, 0⟩

/-- The same command for the same receiver, whatever it answers. -/
def Delivery.unlined (delivery : Delivery) : Delivery where
  receiver := delivery.receiver
  command := delivery.command
  map := delivery.map.unlined
  reception := .accepted

def Effect.unlined : Effect → Effect
  | .wrote bytes => .wrote bytes
  | .delivered delivery => .delivered delivery.unlined

def Interpreter.unlined (state : Interpreter) : Interpreter :=
  { state with
    scopes := state.scopes.unlined
    registry := state.registry.agreeable
    effects := state.effects.map Effect.unlined }

/-! ## Machines -/

def Halt.unlined : Halt → Halt
  | .fault found => .fault found.unlined
  | .exit code => .exit code

def OpenParameter.unlined (parameter : OpenParameter) : OpenParameter where
  name := parameter.name
  values := parameter.values.map Value.unlined
  rest := parameter.rest.map (·.mapLines fun _ => 0)

def Gathering.unlined (gathering : Gathering) : Gathering where
  word := gathering.word
  line := 0
  map := gathering.map.unlined
  parameter := gathering.parameter.map OpenParameter.unlined
  rest := gathering.rest.map Arg.unlined

def Control.unlined : Control → Control
  | .eval expr => .eval expr.unlined
  | .exec stmt => .exec stmt.unlined
  | .gather gathering => .gather gathering.unlined
  | .value held => .value held.unlined
  | .done => .done
  | .returning held => .returning held.unlined
  | .halting halt => .halting halt.unlined

def Frame.unlined : Frame → Frame
  | .unary op _ => .unary op 0
  | .left op operand _ => .left op operand.unlined 0
  | .right op operand _ => .right op operand.unlined 0
  | .logical op operand => .logical op operand.unlined
  | .assign id name _ => .assign id name 0
  | .callee args _ => .callee (args.map Expr.unlined) 0
  | .argument function before rest _ =>
    .argument function.unlined (before.map Value.unlined) (rest.map Expr.unlined) 0
  | .call => .call
  | .hostCall => .hostCall
  | .discard => .discard
  | .print _ => .print 0
  | .declare name => .declare name
  | .giveBack => .giveBack
  | .branch thenBranch elseBranch => .branch thenBranch.unlined (elseBranch.map Stmt.unlined)
  | .loopTest condition body => .loopTest condition.unlined body.unlined
  | .loopBody condition body => .loopBody condition.unlined body.unlined
  | .gather gathering => .gather gathering.unlined
  | .block rest outer => .block (Stmt.unlinedAll rest) outer
  | .program rest => .program (Stmt.unlinedAll rest)

/-- The answer of a native without lines. -/
def unlinedAnswer :
    Except (Located RuntimeFault) Value → Except (Located RuntimeFault) Value
  | .ok value => .ok value.unlined
  | .error fault => .error fault.unlined

/-- A native uses the line of its call only to report a fault, and it cannot look into the
declaration of a function. -/
def Setting.NativesOnlyReportLines (setting : Setting) : Prop :=
  ∀ native args line,
    setting.native native (args.map Value.unlined) 0 =
      unlinedAnswer (setting.native native args line)

def Machine.unlined (machine : Machine) : Machine where
  control := machine.control.unlined
  frames := machine.frames.map Frame.unlined
  state := machine.state.unlined

/-! ## The relabelling -/

/-- The same ids, and line 0 for every node. -/
def Relabelling.lineless : Relabelling := .ofLines fun _ => 0

section Labels

theorem Expr.unlined_eq_relabel : Expr.unlined = Expr.relabel .lineless :=
  funext fun expr => expr.mapLines_eq_relabel _

theorem Arg.unlined_eq_relabel : Arg.unlined = Arg.relabel .lineless :=
  funext fun arg => arg.mapLines_eq_relabel _

theorem Stmt.unlined_eq_relabel : Stmt.unlined = Stmt.relabel .lineless :=
  funext fun stmt => stmt.mapLines_eq_relabel _

theorem Stmt.unlinedAll_eq_relabelAll (body : List Stmt) :
    Stmt.unlinedAll body = Stmt.relabelAll .lineless body :=
  Stmt.mapLinesAll_eq_relabelAll _ body

theorem Value.unlined_eq_relabel : Value.unlined = Value.relabel .lineless := by
  funext value
  cases value with
  | function decl closure identity =>
    exact congrArg (fun body => Value.function { decl with body } closure identity)
      (Stmt.mapLinesAll_eq_relabelAll _ decl.body)
  | _ => rfl

theorem CommandMap.unlined_eq_mapValues (map : CommandMap) :
    map.unlined = map.mapValues (Value.relabel .lineless) := by
  rw [unlined, Value.unlined_eq_relabel]
  rfl

theorem Effect.unlined_eq_relabel : Effect.unlined = Effect.relabel .lineless := by
  funext effect
  cases effect with
  | wrote bytes => rfl
  | delivered delivery =>
    rw [unlined, Delivery.unlined, CommandMap.unlined_eq_mapValues]
    rfl

theorem Interpreter.unlined_eq_relabel (state : Interpreter) :
    state.unlined = state.relabel .lineless state.distances := by
  rw [unlined, Scopes.unlined_eq_mapValues, Value.unlined_eq_relabel, Effect.unlined_eq_relabel]
  rfl

theorem OpenParameter.unlined_eq_relabel :
    OpenParameter.unlined = OpenParameter.relabel .lineless := by
  have hrest : (ArgValue.mapLines fun _ => 0) = ArgValue.relabel .lineless :=
    funext fun value => value.mapLines_eq_relabel _
  funext parameter
  rw [unlined, Value.unlined_eq_relabel, hrest]
  rfl

theorem Gathering.unlined_eq_relabel (gathering : Gathering) :
    gathering.unlined = gathering.relabel .lineless := by
  rw [unlined, CommandMap.unlined_eq_mapValues, OpenParameter.unlined_eq_relabel,
    Arg.unlined_eq_relabel]
  rfl

theorem Control.unlined_eq_relabel (control : Control) :
    control.unlined = control.relabel .lineless := by
  cases control <;>
    simp only [unlined, relabel, Expr.unlined_eq_relabel, Stmt.unlined_eq_relabel,
      Gathering.unlined_eq_relabel, Value.unlined_eq_relabel]
  case halting halt => cases halt <;> rfl

theorem Frame.unlined_eq_relabel : Frame.unlined = Frame.relabel .lineless := by
  funext frame
  cases frame <;>
    simp only [unlined, relabel, Expr.unlined_eq_relabel, Stmt.unlined_eq_relabel,
      Stmt.unlinedAll_eq_relabelAll, Gathering.unlined_eq_relabel, Value.unlined_eq_relabel] <;>
    rfl

theorem Setting.NativesOnlyReportLines.nativesCarry {setting : Setting}
    (h : setting.NativesOnlyReportLines) : setting.NativesCarry .lineless := by
  have hanswer : unlinedAnswer = relabelAnswer .lineless := by
    funext answer
    cases answer <;> simp only [unlinedAnswer, relabelAnswer, Value.unlined_eq_relabel]
    rfl
  intro native args line
  rw [← hanswer, ← h native args line, Value.unlined_eq_relabel]
  rfl

theorem Machine.unlined_eq_relabel (machine : Machine) :
    machine.unlined = machine.relabel .lineless machine.state.distances := by
  rw [unlined, Control.unlined_eq_relabel, Frame.unlined_eq_relabel,
    Interpreter.unlined_eq_relabel]
  rfl

end Labels

/-! ## Runs -/

namespace Machine

theorem unlined_after {setting : Setting} (hnative : setting.NativesOnlyReportLines)
    (machine : Machine) (n : Nat) :
    (machine.after setting.keeping n).unlined = machine.unlined.after setting.keeping n := by
  have hcarry : setting.keeping.NativesCarry .lineless := hnative.nativesCarry
  have hsame : Relabelling.lineless.Carries machine.state.distances machine.state.distances :=
    fun _ => rfl
  rw [unlined_eq_relabel, unlined_eq_relabel, (conserves_after setting.keeping n machine).distances,
    relabel_after hcarry machine hsame]

theorem atRest_unlined (machine : Machine) : machine.unlined.atRest = machine.atRest := by
  rw [unlined_eq_relabel, atRest_relabel]

end Machine

theorem Interpreter.unlined_start (state : Interpreter) (program : List Stmt) :
    (state.start program).unlined = state.unlined.start (Stmt.unlinedAll program) := by
  cases program <;> rfl

end CommandScript
