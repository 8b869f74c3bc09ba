import CommandScript.Machine.Run

/-!
# The frame of the program

The frame that waits for the end of a statement of the program itself lies below all
others and is never pushed on top of one. When its turn comes, no other frame is left.

* `Machine.Grounded`: a program's own frame is the outermost one.
* `Machine.Grounded.step`: a step keeps it there.
-/

namespace CommandScript.Machine

/-- A program's own frame is the outermost one. -/
def Grounded : List Frame → Prop
  | [] => True
  | .program _ :: frames => frames = []
  | _ :: frames => Grounded frames

namespace Grounded

theorem tail {frame : Frame} {frames : List Frame} (h : Grounded (frame :: frames)) :
    Grounded frames := by
  cases frame with
  | program rest =>
    obtain rfl : frames = [] := h
    exact trivial
  | _ => exact h

variable {setting : Setting} {state : Interpreter} {frames : List Frame}

theorem of_call (h : Grounded frames) (callee : Value) (args : List Value) (line : Nat) :
    Grounded (call setting callee args line frames state).frames := by
  unfold call
  split
  · split
    · exact h
    · split <;> exact h
  · split
    · exact h
    · split
      · exact h
      · unfold answer
        split <;> exact h
  · exact h

theorem of_nextArgument (h : Grounded frames) (callee : Value) (before : List Value)
    (rest : List Expr) (line : Nat) :
    Grounded (nextArgument setting callee before rest line frames state).frames := by
  unfold nextArgument
  split
  · exact h.of_call callee _ line
  · exact h

theorem of_stepEval (h : Grounded frames) (expr : Expr) :
    Grounded (stepEval setting expr frames state).frames := by
  unfold stepEval
  split
  case h_6 => split <;> exact h
  all_goals exact h

theorem of_stepExec (h : Grounded frames) (stmt : Stmt) :
    Grounded (stepExec stmt frames state).frames := by
  unfold stepExec
  split
  case h_12 => split <;> exact h
  all_goals exact h

theorem of_stepGather (h : Grounded frames) (gathering : Gathering) :
    Grounded (stepGather gathering frames state).frames := by
  unfold stepGather
  split <;> split <;> exact h

theorem of_stepValue {frame : Frame} (h : Grounded (frame :: frames)) (value : Value) :
    Grounded (stepValue setting value frame frames state).frames := by
  have hdeliver : ∀ outcome line, Grounded (deliver outcome line frames state).frames := by
    intro outcome line
    cases outcome <;> exact h.tail
  unfold stepValue
  split
  case h_1 => exact hdeliver _ _
  case h_3 => exact hdeliver _ _
  case h_4 => split <;> exact h.tail
  case h_5 => split <;> exact h.tail
  case h_6 => exact h.tail.of_nextArgument _ _ _ _
  case h_7 => exact h.tail.of_nextArgument _ _ _ _
  case h_9 => split <;> exact h.tail
  case h_12 =>
    split
    · exact h.tail
    · split <;> exact h.tail
  case h_13 => split <;> exact h.tail
  case h_15 => exact h
  all_goals exact h.tail

theorem of_stepDone {frame : Frame} (h : Grounded (frame :: frames)) :
    Grounded (stepDone setting frame frames state).frames := by
  unfold stepDone
  split
  case h_7 => exact h
  all_goals exact h.tail

theorem of_stepReturning {frame : Frame} (h : Grounded (frame :: frames)) (value : Value) :
    Grounded (stepReturning value frame frames state).frames := by
  unfold stepReturning
  split
  case h_4 => exact h
  all_goals exact h.tail

theorem of_stepHalting {frame : Frame} (h : Grounded (frame :: frames)) (halt : Halt) :
    Grounded (stepHalting halt frame frames state).frames := by
  unfold stepHalting
  split <;> exact h.tail

theorem step {machine : Machine} (h : Grounded machine.frames) :
    Grounded (machine.step setting).frames := by
  obtain ⟨control, frames, state⟩ := machine
  cases control with
  | eval expr => exact of_stepEval h expr
  | exec stmt => exact of_stepExec h stmt
  | gather gathering => exact of_stepGather h gathering
  | value value =>
    cases frames with
    | nil => exact h
    | cons frame rest => exact of_stepValue h value
  | done =>
    cases frames with
    | nil => exact h
    | cons frame rest => exact of_stepDone h
  | returning value =>
    cases frames with
    | nil => exact h
    | cons frame rest => exact of_stepReturning h value
  | halting halt =>
    cases frames with
    | nil => exact h
    | cons frame rest => exact of_stepHalting h halt

end Grounded

end CommandScript.Machine
