import CommandScript.Grammar.Program
import CommandScript.Proofs.Machine.Restoring
import CommandScript.Token.Scan

/-!
# How a halt ends a program

A fault or an exit passes every frame on its way out, whatever the frame waits for. On this
way nothing is evaluated, written or delivered: blocks give back the scope that they were
entered from, and calls count down. So once an `exit` is reached, nothing of the program is
executed any more, and a command that waits for the value of an argument is never delivered.

How the host hears of the exit depends on the output. If it cannot be flushed, that fault
comes before the status, and the host is not told to exit (`Interpreter.exit_unheard`).

* `Machine.unwind`: the state in which the frames have been left.
* `Machine.after_halting`: the way out.
* `Machine.halts_with`: how `interpret` ends a program that a halt has ended.
* `Interpreter.exit_ends_program`: everything that happens from an `exit` on.
-/

namespace CommandScript

namespace Machine

/-- The state in which all frames have been left. -/
def unwind (frames : List Frame) (state : Interpreter) : Interpreter :=
  { state with
    current := home frames state.current
    callDepth := state.callDepth - calls frames }

variable {setting : Setting}

/-- On its way out a halt leaves the innermost frame. -/
theorem step_halting (halt : Halt) (frame : Frame) (frames : List Frame) (state : Interpreter) :
    ∃ next, step setting ⟨.halting halt, frame :: frames, state⟩ = ⟨.halting halt, frames, next⟩ ∧
      unwind frames next = unwind (frame :: frames) state := by
  cases frame with
  | block rest outer => exact ⟨_, rfl, rfl⟩
  | call =>
    refine ⟨_, rfl, ?_⟩
    rw [unwind, unwind, calls, Nat.sub_sub, Nat.add_comm 1]
    rfl
  | _ => exact ⟨_, rfl, rfl⟩

theorem after_halting (halt : Halt) (frames : List Frame) (state : Interpreter) :
    after setting frames.length ⟨.halting halt, frames, state⟩ =
      ⟨.halting halt, [], unwind frames state⟩ := by
  induction frames generalizing state with
  | nil => rfl
  | cons frame frames ih =>
    obtain ⟨next, hstep, hunwind⟩ := @step_halting setting halt frame frames state
    rw [List.length_cons, after, hstep, ih, hunwind]

/-- On its way out a halt stays what it is, and nothing is bound, written or delivered. -/
theorem after_of_halting {machine : Machine} {halt : Halt} (h : machine.control = .halting halt)
    (n : Nat) :
    (machine.after setting n).control = .halting halt ∧
      (machine.after setting n).state.scopes = machine.state.scopes ∧
      (machine.after setting n).state.effects = machine.state.effects := by
  refine after_induction (P := fun later => later.control = .halting halt ∧
    later.state.scopes = machine.state.scopes ∧ later.state.effects = machine.state.effects) ?_
    ⟨h, rfl, rfl⟩ n
  rintro ⟨control, frames, state⟩ ⟨rfl, hscopes, heffects⟩
  cases frames with
  | nil => exact ⟨rfl, hscopes, heffects⟩
  | cons frame rest => cases frame <;> exact ⟨rfl, hscopes, heffects⟩

theorem step_exit {machine : Machine} {line : Nat}
    (h : machine.control = .exec (.command (.exit line))) :
    machine.step setting = ⟨.halting (.exit 0), machine.frames, machine.state⟩ := by
  obtain ⟨control, frames, state⟩ := machine
  obtain rfl : control = .exec (.command (.exit line)) := h
  rfl

/-- Once a halt is on its way, this is how the run ends. -/
theorem halts_with {state reached : Interpreter} {program : List Stmt} {n : Nat} {halt : Halt}
    {frames : List Frame}
    (h : (state.start program).after setting n = ⟨.halting halt, frames, reached⟩)
    {budget : Nat} (hbudget : n + frames.length ≤ budget) :
    state.interpret setting budget program =
      some (Interpreter.outcome (.halting halt) reached.sink.flushFails,
        (unwind frames reached).collectAtEnd setting) := by
  have hend : (state.start program).after setting budget =
      ⟨.halting halt, [], unwind frames reached⟩ := by
    obtain ⟨more, rfl⟩ := Nat.exists_eq_add_of_le hbudget
    rw [after_add, after_add, h, after_halting, after_of_atRest rfl]
  have hrun := run_eq_some_iff.mpr ⟨hend, rfl⟩
  rw [Interpreter.interpret, hrun]
  rfl

end Machine

namespace Interpreter

open Machine (unwind)

/-- **An exit ends the program.** Let a program come to an `exit`, inside any nesting of
statements, calls and arguments of commands, with any output. From then on the exit is on its
way out: nothing is executed, nothing is bound, written or delivered any more. The run ends,
in the scope and with the count of calls that it began with. The host is told to exit with
code zero, unless the output cannot be flushed; then it is told of that fault instead. -/
theorem exit_ends_program (setting : Setting) (state : Interpreter) (program : List Stmt)
    {n line : Nat}
    (h : ((state.start program).after setting n).control = .exec (.command (.exit line))) :
    let reached := (state.start program).after setting n
    (∀ later > n,
      ((state.start program).after setting later).control = .halting (.exit 0) ∧
      ((state.start program).after setting later).state.scopes = reached.state.scopes ∧
      ((state.start program).after setting later).state.effects = reached.state.effects) ∧
    (unwind reached.frames reached.state).current = state.current ∧
    (unwind reached.frames reached.state).callDepth = state.callDepth ∧
    ∀ budget > n + reached.frames.length,
      state.interpret setting budget program =
        some (if state.sink.flushFails then .error ⟨.output Sink.flushDetails, 0⟩
            else .ok (.exit 0),
          (unwind reached.frames reached.state).collectAtEnd setting) := by
  intro reached
  have hflush : reached.state.sink.flushFails = state.sink.flushFails := by
    rw [(Machine.conserves_after setting n (state.start program)).flushFails]
    cases program <;> rfl
  have hexit : (state.start program).after setting (n + 1) =
      ⟨.halting (.exit 0), reached.frames, reached.state⟩ := by
    rw [Machine.after_succ, Machine.step_exit h]
  refine ⟨fun later hlater => ?_, ?_, ?_, fun budget hbudget => ?_⟩
  · obtain ⟨more, rfl⟩ := Nat.exists_eq_add_of_le (Nat.succ_le_of_lt hlater)
    rw [Machine.after_add, hexit]
    exact Machine.after_of_halting rfl more
  · have hhome := (Machine.conserves_after setting n (state.start program)).home
    cases program <;> exact hhome
  · have hdepth := @Machine.callDepth_after setting _ _ (callDepth_start state program) n
    exact Nat.sub_eq_of_eq_add hdepth
  · rw [Machine.halts_with hexit (by omega), outcome, hflush]

/-- A function that an argument calls comes to an `exit`. Its command is not delivered, and
what follows is not printed. -/
theorem exit_ends_program_of_argument :
    let setting : Setting := ⟨.byName, some 1, fun _ _ _ => .ok .null⟩
    let program : List Stmt :=
      [.function "stop" [] [.block [.command (.exit 1)]] 1,
        .block [.command (.deliver "open"
          [.positional (.expr (.call (.variable 0 "stop" 2) [] 2))] 2)],
        .print (.literal (.bool true) 3) 3]
    let door : CommandModule := ⟨"door", ["open"], fun _ => none, fun _ _ => .accepted⟩
    let state := initial setting (Registry.empty.install door) .unlimited
    ((state.start program).after setting 12).control = .exec (.command (.exit 1)) ∧
      (∀ later > 12,
        ((state.start program).after setting later).control = .halting (.exit 0) ∧
        ((state.start program).after setting later).state.effects = #[]) ∧
      ∀ budget > 18, (state.interpret setting budget program).map Prod.fst =
        some (.ok (.exit 0)) := by
  intro setting program door state
  have hexit : ((state.start program).after setting 12).control = .exec (.command (.exit 1)) := by
    with_unfolding_all rfl
  obtain ⟨hlater, -, -, hanswer⟩ := exit_ends_program setting state program hexit
  have heffects : ((state.start program).after setting 12).state.effects = #[] := by
    with_unfolding_all rfl
  refine ⟨hexit, fun later h => ⟨(hlater later h).1, (hlater later h).2.2.trans heffects⟩,
    fun budget hbudget => ?_⟩
  have hframes : ((state.start program).after setting 12).frames.length = 6 := by
    with_unfolding_all rfl
  rw [hanswer budget (by omega)]
  rfl

/-- **An exit that the host does not hear of.** The output cannot be flushed, and whatever the
budget, the answer to `exit;` is not the status to exit with. -/
theorem exit_unheard :
    let setting : Setting := ⟨.resolved, some 1, fun _ _ _ => .ok .null⟩
    let state := initial setting Registry.empty ⟨none, true⟩
    ((parse .script (scan .builtin "exit;").tokens 0).program matches
        .ok [.command (.exit 1)]) = true ∧
      (state.start [.command (.exit 1)]).control = .exec (.command (.exit 1)) ∧
      (state.interpret setting 2 [.command (.exit 1)]).map Prod.fst =
        some (.error ⟨.output "flush failed", 0⟩) ∧
      ∀ budget, (state.interpret setting budget [.command (.exit 1)]).map Prod.fst ≠
        some (.ok (.exit 0)) := by
  intro setting state
  have hanswer : ∀ budget ≥ 2, (state.interpret setting budget [.command (.exit 1)]).map Prod.fst =
      some (.error ⟨.output Sink.flushDetails, 0⟩) := by
    intro budget hbudget
    have hstep : (state.start [.command (.exit 1)]).after setting 1 =
        ⟨.halting (.exit 0), [.program []], state⟩ := rfl
    rw [Machine.halts_with hstep hbudget]
    rfl
  refine ⟨by decide +kernel, rfl, hanswer 2 (Nat.le_refl 2), fun budget => ?_⟩
  match budget with
  | 0 => exact nofun
  | 1 => exact nofun
  | budget + 2 =>
    rw [hanswer (budget + 2) (Nat.le_add_left 2 budget)]
    exact nofun

end Interpreter

end CommandScript
