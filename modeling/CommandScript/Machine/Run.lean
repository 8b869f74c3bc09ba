import CommandScript.Machine.Step

/-!
# Running programs

A run is bounded by a budget of steps, because programs need not end. A run that comes to
rest within its budget has an answer, and a larger budget gives the same one.

* `Machine.run`: the machine at rest, if it comes to rest within the budget.
* `Machine.run_mono`: a larger budget gives the same machine at rest.
* `Interpreter.interpret`: runs a program from the global scope.
* `Interpreter.callValue`: calls a function value on behalf of the host.
-/

namespace CommandScript

namespace Machine

def run (setting : Setting) : (budget : Nat) → Machine → Option Machine
  | 0, machine => if machine.atRest then some machine else none
  | budget + 1, machine =>
    if machine.atRest then some machine else run setting budget (machine.step setting)

theorem run_succ {setting : Setting} {budget : Nat} {machine final : Machine}
    (h : run setting budget machine = some final) :
    run setting (budget + 1) machine = some final := by
  induction budget generalizing machine with
  | zero =>
    rw [run] at h
    split at h
    · rename_i hrest
      rw [run, if_pos hrest]
      exact h
    · cases h
  | succ budget ih =>
    rw [run] at h ⊢
    split at h
    · rename_i hrest
      rw [if_pos hrest]
      exact h
    · rename_i hrest
      rw [if_neg hrest]
      exact ih h

theorem run_mono {setting : Setting} {budget larger : Nat} {machine final : Machine}
    (hle : budget ≤ larger) (h : run setting budget machine = some final) :
    run setting larger machine = some final := by
  induction hle with
  | refl => exact h
  | step _ ih => exact run_succ ih

end Machine

namespace Interpreter

/-- The machine that is about to run a program. -/
def start (state : Interpreter) : (program : List Stmt) → Machine
  | [] => ⟨.done, [], state⟩
  | stmt :: rest => ⟨.exec stmt, [.program rest], state⟩

/-- The collection at the end of a run. -/
def collectAtEnd (setting : Setting) (state : Interpreter) : Interpreter :=
  match setting.collectFrom with
  | some minimum => if state.captured.handles.isEmpty then state else state.collect minimum
  | none => state

/-- How a run ended, given the control of the machine at rest and whether the output could
be flushed. A fault of the program comes before a fault of the flush, and that before the
status. -/
def outcome (control : Control) (flushFails : Bool) : Except (Located RuntimeFault) Status :=
  match control with
  | .halting (.fault fault) => .error fault
  | control =>
    if flushFails then .error ⟨.output Sink.flushDetails, 0⟩
    else
      match control with
      | .halting (.exit code) => .ok (.exit code)
      | _ => .ok .completed

/-- Runs a program. There is no answer if the budget of steps does not suffice. -/
def interpret (setting : Setting) (budget : Nat) (state : Interpreter) (program : List Stmt) :
    Option (Except (Located RuntimeFault) Status × Interpreter) :=
  ((state.start program).run setting budget).map fun final =>
    (outcome final.control final.state.sink.flushFails, final.state.collectAtEnd setting)

/-- The machine that is about to call a value for the host: parameters without an argument
stay unbound, surplus arguments are dropped, and no call is counted. -/
def startCall (setting : Setting) (state : Interpreter) (callee : Value) (args : List Value)
    (line : Nat) : Machine :=
  match callee with
  | .function decl closure _ => Machine.enterBody decl closure args [.hostCall] state
  | .native native _ => Machine.answer (setting.native native args line) [] state
  | _ => Machine.raise .notCallable line [] state

def callValue (setting : Setting) (budget : Nat) (state : Interpreter) (callee : Value)
    (args : List Value) (line : Nat) : Option (Except Halt Value × Interpreter) :=
  ((state.startCall setting callee args line).run setting budget).map fun final =>
    match final.control with
    | .halting halt => (.error halt, final.state)
    | .value value => (.ok value, final.state)
    | _ => (.ok .null, final.state)

end Interpreter

end CommandScript
