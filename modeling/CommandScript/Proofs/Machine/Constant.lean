import CommandScript.Proofs.Machine.Course

/-!
# What no step changes

Steps change neither the global scope, nor the recorded distances, nor the registered
modules, nor whether the output can be flushed. The frames of entered blocks remember the
scopes to go back to; the outermost of them, or the current scope if there is none, is the
scope in which the machine will come to rest. Steps do not change this scope either.

* `Machine.home`: the scope in which the machine will come to rest.
* `Machine.conserves_step`: what a step conserves.
* `Machine.conserves_after`: what a run conserves.
-/

namespace CommandScript.Machine

/-- The scope that is current when all frames are gone. -/
def home : List Frame → ScopeId → ScopeId
  | [], current => current
  | .block _ outer :: frames, _ => home frames outer
  | _ :: frames, current => home frames current

/-- What is constant is the same in another machine, which has the given home. -/
structure Conserves (goal : ScopeId) (state : Interpreter) (next : Machine) : Prop where
  globals : next.state.globals = state.globals
  distances : next.state.distances = state.distances
  registry : next.state.registry = state.registry
  flushFails : next.state.sink.flushFails = state.sink.flushFails
  home : home next.frames next.state.current = goal

section Steps

variable {setting : Setting} {state : Interpreter} {frames : List Frame}

theorem conserves_raise (fault : RuntimeFault) (line : Nat) :
    Conserves (home frames state.current) state (raise fault line frames state) :=
  ⟨rfl, rfl, rfl, rfl, rfl⟩

theorem conserves_deliver (outcome : Except RuntimeFault Value) (line : Nat) :
    Conserves (home frames state.current) state (deliver outcome line frames state) := by
  cases outcome <;> exact ⟨rfl, rfl, rfl, rfl, rfl⟩

theorem flushFails_write (sink : Sink) (text : String) :
    (sink.write text).sink.flushFails = sink.flushFails := by
  unfold Sink.write
  split
  · rfl
  · simp only
    split <;> rfl

theorem bindAll_eq (state : Interpreter) (id : ScopeId) (names : List String)
    (values : List Value) :
    (state.bindAll id names values).globals = state.globals ∧
      (state.bindAll id names values).distances = state.distances ∧
      (state.bindAll id names values).registry = state.registry ∧
      (state.bindAll id names values).sink = state.sink ∧
      (state.bindAll id names values).current = state.current := by
  induction names generalizing state values with
  | nil => cases values <;> exact ⟨rfl, rfl, rfl, rfl, rfl⟩
  | cons name rest ih =>
    cases values with
    | nil => exact ⟨rfl, rfl, rfl, rfl, rfl⟩
    | cons value more => exact ih (state.define id name value) more

theorem conserves_enterBody (decl : FunctionDecl) (closure : ScopeId) (args : List Value)
    (depth : Nat) :
    Conserves (home frames state.current) state (enterBody decl closure args (.call :: frames)
      { state with callDepth := depth }) := by
  obtain ⟨hglobals, hdistances, hregistry, hsink, -⟩ := bindAll_eq
    (Interpreter.enter { state with callDepth := depth } closure) state.scopes.nextId decl.params
    args
  exact ⟨hglobals, hdistances, hregistry, congrArg Sink.flushFails hsink, rfl⟩

theorem conserves_call (callee : Value) (args : List Value) (line : Nat) :
    Conserves (home frames state.current) state (call setting callee args line frames state) := by
  unfold call
  split
  · split
    · exact conserves_raise _ _
    · split
      · exact conserves_raise _ _
      · exact conserves_enterBody _ _ _ _
  · split
    · exact conserves_raise _ _
    · split
      · exact conserves_raise _ _
      · unfold answer
        split <;> exact ⟨rfl, rfl, rfl, rfl, rfl⟩
  · exact conserves_raise _ _

theorem conserves_nextArgument (callee : Value) (before : List Value) (rest : List Expr)
    (line : Nat) :
    Conserves (home frames state.current) state
      (nextArgument setting callee before rest line frames state) := by
  unfold nextArgument
  split
  · exact conserves_call _ _ _
  · exact ⟨rfl, rfl, rfl, rfl, rfl⟩

theorem conserves_stepEval (expr : Expr) :
    Conserves (home frames state.current) state (stepEval setting expr frames state) := by
  unfold stepEval
  split
  case h_6 => split <;> exact ⟨rfl, rfl, rfl, rfl, rfl⟩
  all_goals exact ⟨rfl, rfl, rfl, rfl, rfl⟩

theorem conserves_declareFunction (decl : FunctionDecl) :
    Conserves (home frames state.current) state ⟨.done, frames, state.declareFunction decl⟩ := by
  unfold Interpreter.declareFunction Interpreter.trackCurrent
  split <;> exact ⟨rfl, rfl, rfl, rfl, rfl⟩

theorem conserves_stepExec (stmt : Stmt) :
    Conserves (home frames state.current) state (stepExec stmt frames state) := by
  unfold stepExec
  split
  case h_1 => exact ⟨rfl, rfl, rfl, rfl, rfl⟩
  case h_10 => exact conserves_declareFunction _
  case h_12 =>
    split
    · rename_i carried _ hcarried
      obtain rfl : (state.carryOut _).1 = carried := congrArg Prod.fst hcarried
      exact ⟨rfl, rfl, rfl, flushFails_write _ _, rfl⟩
    · rename_i carried hcarried
      obtain rfl : (state.carryOut _).1 = carried := congrArg Prod.fst hcarried
      exact ⟨rfl, rfl, rfl, flushFails_write _ _, rfl⟩
  all_goals exact ⟨rfl, rfl, rfl, rfl, rfl⟩

theorem conserves_stepGather (gathering : Gathering) :
    Conserves (home frames state.current) state (stepGather gathering frames state) := by
  unfold stepGather
  split <;> split <;> exact ⟨rfl, rfl, rfl, rfl, rfl⟩

theorem conserves_stepValue (value : Value) (frame : Frame) :
    Conserves (home (frame :: frames) state.current) state
      (stepValue setting value frame frames state) := by
  -- only the frame of a block has a say in where the machine goes back to
  have hpop : ∀ next, Conserves (home frames state.current) state next →
      (∀ rest outer, frame ≠ .block rest outer) →
      Conserves (home (frame :: frames) state.current) state next := by
    intro next h hframe
    cases frame with
    | block rest outer => exact absurd rfl (hframe rest outer)
    | _ => exact h
  cases frame with
  | unary op line => exact hpop _ (conserves_deliver _ _) (by simp)
  | right op left line => exact hpop _ (conserves_deliver _ _) (by simp)
  | callee args line => exact hpop _ (conserves_nextArgument _ _ _ _) (by simp)
  | argument callee before rest line => exact hpop _ (conserves_nextArgument _ _ _ _) (by simp)
  | logical op right =>
    simp only [stepValue]
    split <;> exact ⟨rfl, rfl, rfl, rfl, rfl⟩
  | assign id name line =>
    simp only [stepValue]
    split <;> exact ⟨rfl, rfl, rfl, rfl, rfl⟩
  | print line =>
    simp only [stepValue]
    split
    · rename_i written hwritten
      obtain rfl : (state.write _).1 = written := congrArg Prod.fst hwritten
      exact ⟨rfl, rfl, rfl, flushFails_write _ _, rfl⟩
    · rename_i written hwritten
      obtain rfl : (state.write _).1 = written := congrArg Prod.fst hwritten
      exact ⟨rfl, rfl, rfl, flushFails_write _ _, rfl⟩
  | branch thenBranch elseBranch =>
    simp only [stepValue]
    split
    · exact ⟨rfl, rfl, rfl, rfl, rfl⟩
    · split <;> exact ⟨rfl, rfl, rfl, rfl, rfl⟩
  | loopTest condition body =>
    simp only [stepValue]
    split <;> exact ⟨rfl, rfl, rfl, rfl, rfl⟩
  | _ => exact ⟨rfl, rfl, rfl, rfl, rfl⟩

theorem conserves_collectIfDue {control : Control} {below : List Frame}
    (hbelow : home below state.current = home frames state.current) :
    Conserves (home frames state.current) state ⟨control, below, state.collectIfDue setting⟩ := by
  unfold Interpreter.collectIfDue
  split
  · split <;> exact ⟨rfl, rfl, rfl, rfl, hbelow⟩
  · exact ⟨rfl, rfl, rfl, rfl, hbelow⟩

theorem conserves_stepDone (frame : Frame) :
    Conserves (home (frame :: frames) state.current) state
      (stepDone setting frame frames state) := by
  cases frame with
  | block rest outer => cases rest <;> exact ⟨rfl, rfl, rfl, rfl, rfl⟩
  | program rest =>
    cases rest <;> exact conserves_collectIfDue rfl
  | _ => exact ⟨rfl, rfl, rfl, rfl, rfl⟩

theorem conserves_stepReturning (value : Value) (frame : Frame) :
    Conserves (home (frame :: frames) state.current) state
      (stepReturning value frame frames state) := by
  cases frame <;> exact ⟨rfl, rfl, rfl, rfl, rfl⟩

theorem conserves_stepHalting (halt : Halt) (frame : Frame) :
    Conserves (home (frame :: frames) state.current) state
      (stepHalting halt frame frames state) := by
  cases frame <;> exact ⟨rfl, rfl, rfl, rfl, rfl⟩

end Steps

theorem conserves_step (setting : Setting) (machine : Machine) :
    Conserves (home machine.frames machine.state.current) machine.state (machine.step setting) := by
  obtain ⟨control, frames, state⟩ := machine
  cases control with
  | eval expr => exact conserves_stepEval expr
  | exec stmt => exact conserves_stepExec stmt
  | gather gathering => exact conserves_stepGather gathering
  | value value =>
    cases frames with
    | nil => exact ⟨rfl, rfl, rfl, rfl, rfl⟩
    | cons frame rest => exact conserves_stepValue value frame
  | done =>
    cases frames with
    | nil => exact ⟨rfl, rfl, rfl, rfl, rfl⟩
    | cons frame rest => exact conserves_stepDone frame
  | returning value =>
    cases frames with
    | nil => exact ⟨rfl, rfl, rfl, rfl, rfl⟩
    | cons frame rest => exact conserves_stepReturning value frame
  | halting halt =>
    cases frames with
    | nil => exact ⟨rfl, rfl, rfl, rfl, rfl⟩
    | cons frame rest => exact conserves_stepHalting halt frame

theorem conserves_after (setting : Setting) (n : Nat) (machine : Machine) :
    Conserves (home machine.frames machine.state.current) machine.state
      (machine.after setting n) := by
  refine after_induction (P := fun later =>
    Conserves (home machine.frames machine.state.current) machine.state later)
    (fun later h => ?_) (⟨rfl, rfl, rfl, rfl, rfl⟩) n
  have hstep := conserves_step setting later
  exact ⟨hstep.globals.trans h.globals, hstep.distances.trans h.distances,
    hstep.registry.trans h.registry, hstep.flushFails.trans h.flushFails, hstep.home.trans h.home⟩

/-- A machine that comes to rest does so in its home. -/
theorem current_of_atRest {setting : Setting} {machine : Machine} {n : Nat}
    (h : (machine.after setting n).atRest = true) :
    (machine.after setting n).state.current = home machine.frames machine.state.current := by
  have hhome := (conserves_after setting n machine).home
  generalize machine.after setting n = final at h hhome
  obtain ⟨control, frames, state⟩ := final
  cases frames with
  | nil => exact hhome
  | cons frame rest => cases control <;> cases h

end CommandScript.Machine
