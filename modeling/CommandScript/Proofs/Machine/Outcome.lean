import CommandScript.Proofs.Machine.Stacking
import CommandScript.Proofs.Machine.Standing

/-!
# What machines come to rest with

Every frame waits either for a value or for the end of a statement, and so does what waits
behind it. A machine that carries out an expression on its own therefore comes to rest with
the value of the expression or with what has stopped it, if it comes to rest at all.

* `Frame.takes`, `Frame.gives`: what a frame waits for, and what is waited for behind it.
* `Machine.Hands`: the machine comes to rest with a value, or with the end of a statement.
* `Machine.rests_of_onto`: what comes to rest above other frames does so on its own.
* `Machine.eval_comes_to_rest`: how an expression ends.
-/

namespace CommandScript

def Frame.takes : Frame → Awaited
  | .call | .hostCall | .loopBody _ _ | .block _ _ | .program _ => .finish
  | _ => .value

def Frame.gives : Frame → Awaited
  | .discard | .print _ | .declare _ | .giveBack | .branch _ _ | .loopTest _ _ | .loopBody _ _
  | .gather _ | .block _ _ | .program _ => .finish
  | _ => .value

namespace Machine

/-- Frames that wait for the first come to an end with the second. -/
def Leads : Awaited → List Frame → Awaited → Prop
  | awaited, [], goal => awaited = goal
  | awaited, frame :: frames, goal => frame.takes = awaited ∧ Leads frame.gives frames goal

/-- The machine will come to rest with a value, or with the end of a statement, unless it is
stopped. -/
def Hands (goal : Awaited) : Machine → Prop
  | ⟨.halting _, _, _⟩ => True
  | ⟨.eval _, frames, _⟩ | ⟨.value _, frames, _⟩ => Leads .value frames goal
  | ⟨_, frames, _⟩ => Leads .finish frames goal

section Steps

variable {setting : Setting} {goal : Awaited} {state : Interpreter} {frames : List Frame}

theorem hands_deliver (h : Leads .value frames goal) (outcome : Except RuntimeFault Value)
    (line : Nat) : (deliver outcome line frames state).Hands goal := by
  cases outcome with
  | ok value => exact h
  | error fault => exact trivial

theorem hands_call (h : Leads .value frames goal) (callee : Value) (args : List Value)
    (line : Nat) : (call setting callee args line frames state).Hands goal := by
  unfold call
  split
  · split
    · exact trivial
    · split
      · exact trivial
      · exact ⟨rfl, rfl, h⟩
  · split
    · exact trivial
    · split
      · exact trivial
      · unfold answer
        split
        · exact h
        · exact trivial
  · exact trivial

theorem hands_nextArgument (h : Leads .value frames goal) (callee : Value)
    (before : List Value) (rest : List Expr) (line : Nat) :
    (nextArgument setting callee before rest line frames state).Hands goal := by
  cases rest with
  | nil => exact hands_call h callee _ line
  | cons arg more => exact ⟨rfl, h⟩

theorem hands_stepEval (h : Leads .value frames goal) (expr : Expr) :
    (stepEval setting expr frames state).Hands goal := by
  cases expr with
  | literal value line | grouping inner line | commandRef name line => exact h
  | «variable» id name line =>
    unfold stepEval
    dsimp only
    split
    · exact h
    · exact trivial
  | _ => exact ⟨rfl, h⟩

theorem hands_stepExec (h : Leads .finish frames goal) (stmt : Stmt) :
    (stepExec stmt frames state).Hands goal := by
  cases stmt with
  | function name params body line => exact h
  | «return» value line =>
    cases value with
    | none => exact h
    | some expr => exact ⟨rfl, h⟩
  | declare name initializer line =>
    cases initializer with
    | none => exact h
    | some expr => exact ⟨rfl, h⟩
  | command action =>
    cases action with
    | deliver word args line => exact h
    | exit line => exact trivial
    | help topic line =>
      unfold stepExec
      dsimp only
      split
      · exact h
      · exact trivial
  | _ => exact ⟨rfl, h⟩

theorem hands_stepGather (h : Leads .finish frames goal) (gathering : Gathering) :
    (stepGather gathering frames state).Hands goal := by
  unfold stepGather
  split <;> split <;> first | exact h | exact ⟨rfl, h⟩

theorem hands_stepValue {frame : Frame} (h : Leads .value (frame :: frames) goal)
    (value : Value) : (stepValue setting value frame frames state).Hands goal := by
  obtain ⟨htakes, h⟩ := h
  cases frame with
  | unary op line | right op left line => exact hands_deliver h _ line
  | left op right line => exact ⟨rfl, h⟩
  | logical op right =>
    unfold stepValue
    dsimp only
    split <;> exact h
  | assign id name line =>
    unfold stepValue
    dsimp only
    split
    · exact h
    · exact trivial
  | callee args line => exact hands_nextArgument h value [] args line
  | argument callee before rest line => exact hands_nextArgument h callee _ rest line
  | print line =>
    unfold stepValue
    dsimp only
    split
    · exact h
    · exact trivial
  | branch thenBranch elseBranch =>
    unfold stepValue
    dsimp only
    split
    · exact h
    · split <;> exact h
  | loopTest condition body =>
    unfold stepValue
    dsimp only
    split
    · exact ⟨rfl, h⟩
    · exact h
  | discard | declare name | giveBack | gather gathering => exact h
  | call | hostCall | loopBody condition body | block rest outer | program rest => cases htakes

theorem hands_stepDone {frame : Frame} (h : Leads .finish (frame :: frames) goal) :
    (stepDone setting frame frames state).Hands goal := by
  obtain ⟨htakes, h⟩ := h
  cases frame with
  | loopBody condition body => exact ⟨rfl, h⟩
  | block rest outer | program rest =>
    cases rest with
    | nil => exact h
    | cons stmt rest => exact ⟨rfl, h⟩
  | call | hostCall => exact h
  | _ => cases htakes

theorem hands_stepReturning {frame : Frame} (h : Leads .finish (frame :: frames) goal)
    (value : Value) : (stepReturning value frame frames state).Hands goal := by
  cases frame with
  | program rest => exact h
  | loopBody condition body | block rest outer | call | hostCall => exact h.2
  | _ => cases h.1

end Steps

variable {setting : Setting} {goal : Awaited} {machine : Machine}

theorem Hands.step (h : machine.Hands goal) : (machine.step setting).Hands goal := by
  obtain ⟨control, frames, state⟩ := machine
  cases control with
  | eval expr => exact hands_stepEval h expr
  | exec stmt => exact hands_stepExec h stmt
  | gather gathering => exact hands_stepGather h gathering
  | value value =>
    cases frames with
    | nil => exact h
    | cons frame rest => exact hands_stepValue h value
  | done =>
    cases frames with
    | nil => exact h
    | cons frame rest => exact hands_stepDone h
  | returning value =>
    cases frames with
    | nil => exact h
    | cons frame rest => exact hands_stepReturning h value
  | halting halt =>
    cases frames with
    | nil => exact trivial
    | cons frame rest => cases frame <;> exact trivial

/-- A machine that will hand on a value comes to rest with one, unless it is stopped. -/
theorem Hands.atRest (h : machine.Hands .value) (hrest : machine.atRest = true) :
    (∃ value state, machine = ⟨.value value, [], state⟩) ∨
      ∃ halt state, machine = ⟨.halting halt, [], state⟩ := by
  obtain ⟨control, frames, state⟩ := machine
  cases frames with
  | cons frame frames => cases control <;> cases hrest
  | nil =>
    cases control with
    | value value => exact .inl ⟨value, state, rfl⟩
    | halting halt => exact .inr ⟨halt, state, rfl⟩
    | done | returning value => cases h
    | _ => cases hrest

/-- An expression that comes to rest on its own ends with a value, or it is stopped. -/
theorem eval_comes_to_rest {expr : Expr} {state : Interpreter} {n : Nat}
    (hrest : (after setting n ⟨.eval expr, [], state⟩).atRest = true) :
    (∃ value final, after setting n ⟨.eval expr, [], state⟩ = ⟨.value value, [], final⟩) ∨
      ∃ halt final, after setting n ⟨.eval expr, [], state⟩ = ⟨.halting halt, [], final⟩ := by
  have hstart : Hands .value ⟨.eval expr, [], state⟩ := rfl
  exact (after_induction (fun _ h => h.step) hstart n).atRest hrest

/-- A machine that comes to rest above other frames comes to rest on its own. -/
theorem rests_of_onto {frame : Frame} {base : List Frame} {n : Nat}
    (hrest : ((machine.onto (frame :: base)).after setting n).atRest = true) :
    ∃ k ≤ n, (machine.after setting k).atRest = true := by
  by_contra hnever
  have hbefore : ∀ k < n, (machine.after setting k).atRest = false := fun k hk =>
    Bool.eq_false_iff.mpr fun hrests => hnever ⟨k, Nat.le_of_lt hk, hrests⟩
  rw [after_onto _ hbefore] at hrest
  generalize machine.after setting n = reached at hrest
  obtain ⟨control, frames, state⟩ := reached
  cases frames <;> cases control <;> cases hrest

end Machine

end CommandScript
