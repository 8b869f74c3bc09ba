import CommandScript.Proofs.Machine.Course
import Mathlib.Data.Nat.Find

/-!
# Frames below

A step looks at the innermost frame only. So as long as a machine has something to do of its
own, it does not matter which frames lie below: its course is the one it takes without them,
up to the point where it comes to rest and hands on to the first frame below.

* `Machine.onto`: the machine with more frames below.
* `Machine.step_onto`, `after_onto`: they change nothing before the machine comes to rest.
* `Machine.reaches_onto`: what a machine comes to rest with is handed to what lies below.
-/

namespace CommandScript.Machine

variable {setting : Setting} {machine : Machine} (base : List Frame)

/-- The machine with more frames below its own. -/
def onto (machine : Machine) : Machine := ⟨machine.control, machine.frames ++ base, machine.state⟩

section Steps

variable (frames : List Frame) (state : Interpreter)

theorem onto_deliver (outcome : Except RuntimeFault Value) (line : Nat) :
    deliver outcome line (frames ++ base) state = (deliver outcome line frames state).onto base := by
  cases outcome <;> rfl

theorem onto_answer (outcome : Except (Located RuntimeFault) Value) :
    answer outcome (frames ++ base) state = (answer outcome frames state).onto base := by
  cases outcome <;> rfl

theorem onto_call (callee : Value) (args : List Value) (line : Nat) :
    call setting callee args line (frames ++ base) state =
      (call setting callee args line frames state).onto base := by
  unfold call
  cases callee with
  | function decl closure identity =>
    dsimp only
    repeat' split
    all_goals rfl
  | native native identity =>
    dsimp only
    repeat' split
    · rfl
    · rfl
    · exact onto_answer base frames state _
  | _ => rfl

theorem onto_nextArgument (callee : Value) (before : List Value) (rest : List Expr) (line : Nat) :
    nextArgument setting callee before rest line (frames ++ base) state =
      (nextArgument setting callee before rest line frames state).onto base := by
  cases rest with
  | nil => exact onto_call base frames state callee _ line
  | cons arg more => rfl

theorem onto_stepEval (expr : Expr) :
    stepEval setting expr (frames ++ base) state =
      (stepEval setting expr frames state).onto base := by
  cases expr with
  | «variable» id name line =>
    unfold stepEval
    dsimp only
    split <;> rfl
  | _ => rfl

theorem onto_stepExec (stmt : Stmt) :
    stepExec stmt (frames ++ base) state = (stepExec stmt frames state).onto base := by
  unfold stepExec
  split
  case h_12 => split <;> rfl
  all_goals rfl

theorem onto_stepGather (gathering : Gathering) :
    stepGather gathering (frames ++ base) state =
      (stepGather gathering frames state).onto base := by
  unfold stepGather
  split <;> split <;> rfl

theorem onto_stepValue (value : Value) (frame : Frame) :
    stepValue setting value frame (frames ++ base) state =
      (stepValue setting value frame frames state).onto base := by
  cases frame with
  | unary op line => exact onto_deliver base frames state _ line
  | right op left line => exact onto_deliver base frames state _ line
  | logical op right =>
    unfold stepValue
    dsimp only
    split <;> rfl
  | assign id name line =>
    unfold stepValue
    dsimp only
    split <;> rfl
  | callee args line => exact onto_nextArgument base frames state value [] args line
  | argument callee before rest line =>
    exact onto_nextArgument base frames state callee (value :: before) rest line
  | print line =>
    unfold stepValue
    dsimp only
    split <;> rfl
  | branch thenBranch elseBranch =>
    unfold stepValue
    dsimp only
    split
    · rfl
    · split <;> rfl
  | loopTest condition body =>
    unfold stepValue
    dsimp only
    split <;> rfl
  | _ => rfl

theorem onto_stepDone (frame : Frame) :
    stepDone setting frame (frames ++ base) state =
      (stepDone setting frame frames state).onto base := by
  unfold stepDone
  split <;> rfl

theorem onto_stepReturning (value : Value) (frame : Frame) :
    stepReturning value frame (frames ++ base) state =
      (stepReturning value frame frames state).onto base := by
  cases frame <;> rfl

theorem onto_stepHalting (halt : Halt) (frame : Frame) :
    stepHalting halt frame (frames ++ base) state =
      (stepHalting halt frame frames state).onto base := by
  cases frame <;> rfl

end Steps

/-- The step of a machine that is not at rest does not look at the frames below. -/
theorem step_onto (h : machine.atRest = false) :
    (machine.onto base).step setting = (machine.step setting).onto base := by
  obtain ⟨control, frames, state⟩ := machine
  cases control with
  | eval expr => exact onto_stepEval base frames state expr
  | exec stmt => exact onto_stepExec base frames state stmt
  | gather gathering => exact onto_stepGather base frames state gathering
  | value value =>
    cases frames with
    | nil => cases h
    | cons frame frames => exact onto_stepValue base frames state value frame
  | done =>
    cases frames with
    | nil => cases h
    | cons frame frames => exact onto_stepDone base frames state frame
  | returning value =>
    cases frames with
    | nil => cases h
    | cons frame frames => exact onto_stepReturning base frames state value frame
  | halting halt =>
    cases frames with
    | nil => cases h
    | cons frame frames => exact onto_stepHalting base frames state halt frame

theorem after_onto {n : Nat} (h : ∀ k < n, (machine.after setting k).atRest = false) :
    (machine.onto base).after setting n = (machine.after setting n).onto base := by
  induction n with
  | zero => rfl
  | succ n ih =>
    rw [after_succ, after_succ, ih fun k hk => h k (Nat.lt_succ_of_lt hk),
      step_onto base (h n (Nat.lt_succ_self n))]

/-- Up to its first rest a machine is not at rest. -/
theorem exists_first_rest {n : Nat} (h : (machine.after setting n).atRest = true) :
    ∃ k ≤ n, machine.after setting k = machine.after setting n ∧
      ∀ j < k, (machine.after setting j).atRest = false := by
  have hrests : ∃ k, (machine.after setting k).atRest = true := ⟨n, h⟩
  obtain ⟨more, hn⟩ := Nat.exists_eq_add_of_le (Nat.find_min' hrests h)
  refine ⟨Nat.find hrests, Nat.find_min' hrests h, ?_, fun j hj =>
    Bool.eq_false_iff.mpr (Nat.find_min hrests hj)⟩
  rw [hn, after_add, after_of_atRest (Nat.find_spec hrests)]

/-- What a machine comes to rest with is handed to the frames below. -/
theorem reaches_onto {n : Nat} (h : (machine.after setting n).atRest = true) :
    ∃ k ≤ n, (machine.onto base).after setting k = (machine.after setting n).onto base := by
  obtain ⟨k, hle, hsame, hbefore⟩ := exists_first_rest h
  exact ⟨k, hle, by rw [after_onto base hbefore, hsame]⟩

end CommandScript.Machine
