import CommandScript.Proofs.Machine.Course
import CommandScript.Proofs.Machine.Grounded

/-!
# More of a program

A machine that runs a program takes the same steps if more statements follow behind the
program, up to the point at which it would end. It also takes the same steps with another
table of distances, as long as the references that it comes to find the same scopes.

* `Machine.extended`: the machine with more to run, and with another table.
* `Machine.SameTargets`: the next step finds the same scope with another table.
* `Machine.step_extended`: the step of an extended machine.
* `Interpreter.start_append`: the course of a program with more behind it.
-/

namespace CommandScript

open Std (HashMap)

/-! ## Another table -/

namespace Interpreter

def withTable (state : Interpreter) (table : HashMap NodeId Nat) : Interpreter :=
  { state with distances := table }

variable {setting : Setting} (state : Interpreter) (table : HashMap NodeId Nat)

theorem withTable_bindAll (id : ScopeId) (names : List String) (values : List Value) :
    (state.withTable table).bindAll id names values =
      (state.bindAll id names values).withTable table := by
  induction names generalizing state values with
  | nil => cases values <;> rfl
  | cons name rest ih =>
    cases values with
    | nil => rfl
    | cons value more => exact ih (state.define id name value) more

theorem withTable_trackCurrent :
    (state.withTable table).trackCurrent = state.trackCurrent.withTable table := by
  unfold trackCurrent
  by_cases hglobal : state.current = state.globals
  · rw [if_pos hglobal]
    exact if_pos hglobal
  · rw [if_neg hglobal]
    exact if_neg hglobal

theorem withTable_declareFunction (decl : FunctionDecl) :
    (state.withTable table).declareFunction decl =
      (state.declareFunction decl).withTable table := by
  unfold declareFunction
  rw [withTable_trackCurrent]
  rfl

theorem withTable_collectIfDue :
    (state.withTable table).collectIfDue setting =
      (state.collectIfDue setting).withTable table := by
  unfold collectIfDue
  split
  · by_cases hdue : state.captured.isDue = true
    · rw [if_pos hdue]
      exact if_pos hdue
    · rw [if_neg hdue]
      exact if_neg hdue
  · rfl

end Interpreter

/-! ## More statements -/

/-- The same frame; if it is that of the program, more statements follow. -/
def Frame.extended (more : List Stmt) : Frame → Frame
  | .program rest => .program (rest ++ more)
  | frame => frame

namespace Machine

/-- The same machine with more statements behind its program and another table. -/
def extended (more : List Stmt) (table : HashMap NodeId Nat) (machine : Machine) : Machine :=
  ⟨machine.control, machine.frames.map (·.extended more), machine.state.withTable table⟩

/-- With another table the next step finds the same scope. -/
structure SameTargets (rule : LookupRule) (table : HashMap NodeId Nat) (machine : Machine) :
    Prop where
  read : ∀ id name line, machine.control = .eval (.variable id name line) →
    (machine.state.withTable table).target? rule id name = machine.state.target? rule id name
  write : ∀ value id name line frames, machine.control = .value value →
    machine.frames = .assign id name line :: frames →
    (machine.state.withTable table).target? rule id name = machine.state.target? rule id name

section Steps

variable {setting : Setting} {state : Interpreter} (more : List Stmt)
  (table : HashMap NodeId Nat) (frames : List Frame)

theorem extended_deliver (outcome : Except RuntimeFault Value) (line : Nat) :
    deliver outcome line (frames.map (·.extended more)) (state.withTable table) =
      (deliver outcome line frames state).extended more table := by
  cases outcome <;> rfl

theorem extended_enterBody (state : Interpreter) (decl : FunctionDecl) (closure : ScopeId)
    (args : List Value) :
    enterBody decl closure args (frames.map (·.extended more)) (state.withTable table) =
      (enterBody decl closure args frames state).extended more table :=
  congrArg (Machine.mk .done _) (Interpreter.withTable_bindAll (state.enter closure) table _ _ _)

theorem extended_call (callee : Value) (args : List Value) (line : Nat) :
    call setting callee args line (frames.map (·.extended more)) (state.withTable table) =
      (call setting callee args line frames state).extended more table := by
  cases callee with
  | function decl closure identity =>
    unfold call
    dsimp only
    by_cases harity : args.length ≠ decl.params.length
    · rw [if_pos harity, if_pos harity]
      rfl
    · rw [if_neg harity, if_neg harity]
      by_cases hdepth : maxCallDepth ≤ state.callDepth
      · rw [if_pos hdepth]
        exact if_pos hdepth
      · rw [if_neg hdepth]
        exact (if_neg hdepth).trans (extended_enterBody more table (.call :: frames)
          { state with callDepth := state.callDepth + 1 } decl closure args)
  | native native identity =>
    unfold call
    dsimp only
    by_cases harity : args.length ≠ native.arity
    · rw [if_pos harity, if_pos harity]
      rfl
    · rw [if_neg harity, if_neg harity]
      by_cases hdepth : maxCallDepth ≤ state.callDepth
      · rw [if_pos hdepth]
        exact if_pos hdepth
      · rw [if_neg hdepth]
        refine (if_neg hdepth).trans ?_
        cases setting.native native args line <;> rfl
  | _ => rfl

theorem extended_nextArgument (callee : Value) (before : List Value) (rest : List Expr)
    (line : Nat) :
    nextArgument setting callee before rest line (frames.map (·.extended more))
        (state.withTable table) =
      (nextArgument setting callee before rest line frames state).extended more table := by
  cases rest with
  | nil => exact extended_call more table frames _ _ _
  | cons arg rest => rfl

theorem extended_stepEval {expr : Expr}
    (hread : ∀ id name line, expr = .variable id name line →
      (state.withTable table).target? setting.lookup id name =
        state.target? setting.lookup id name) :
    stepEval setting expr (frames.map (·.extended more)) (state.withTable table) =
      (stepEval setting expr frames state).extended more table := by
  cases expr with
  | «variable» id name line =>
    have hvalue : (state.withTable table).lookUp? setting.lookup id name =
        state.lookUp? setting.lookup id name := by
      unfold Interpreter.lookUp?
      rw [hread id name line rfl]
      rfl
    simp only [stepEval, hvalue]
    cases state.lookUp? setting.lookup id name <;> rfl
  | _ => rfl

theorem extended_stepExec (stmt : Stmt) :
    stepExec stmt (frames.map (·.extended more)) (state.withTable table) =
      (stepExec stmt frames state).extended more table := by
  have hhelp : ∀ topic, (state.withTable table).carryOut (.help topic) =
      ((state.carryOut (.help topic)).1.withTable table, (state.carryOut (.help topic)).2) :=
    fun _ => rfl
  unfold stepExec
  split
  case h_10 name params body line =>
    rw [Interpreter.withTable_declareFunction]
    rfl
  case h_12 topic line =>
    rw [hhelp]
    obtain ⟨next, status⟩ := state.carryOut (.help topic)
    cases status <;> rfl
  all_goals rfl

theorem extended_stepGather (gathering : Gathering) :
    stepGather gathering (frames.map (·.extended more)) (state.withTable table) =
      (stepGather gathering frames state).extended more table := by
  unfold stepGather
  split <;> split <;> rfl

theorem extended_stepValue {value : Value} {frame : Frame}
    (hwrite : ∀ id name line, frame = .assign id name line →
      (state.withTable table).target? setting.lookup id name =
        state.target? setting.lookup id name) :
    stepValue setting value (frame.extended more) (frames.map (·.extended more))
        (state.withTable table) =
      (stepValue setting value frame frames state).extended more table := by
  cases frame with
  | unary op line => exact extended_deliver more table frames _ _
  | right op left line => exact extended_deliver more table frames _ _
  | logical op right =>
    simp only [Frame.extended, stepValue]
    split <;> rfl
  | assign id name line =>
    simp only [Frame.extended, stepValue, hwrite id name line rfl]
    cases state.target? setting.lookup id name <;> rfl
  | callee args line => exact extended_nextArgument more table frames _ _ _ _
  | argument callee before rest line => exact extended_nextArgument more table frames _ _ _ _
  | print line =>
    have hwritten : (state.withTable table).write (value.text ++ "\n") =
      ((state.write (value.text ++ "\n")).1.withTable table,
        (state.write (value.text ++ "\n")).2) := rfl
    simp only [Frame.extended, stepValue]
    rw [hwritten]
    obtain ⟨next, complete⟩ := state.write (value.text ++ "\n")
    cases complete <;> rfl
  | branch thenBranch elseBranch =>
    simp only [Frame.extended, stepValue]
    split
    · rfl
    · cases elseBranch <;> rfl
  | loopTest condition body =>
    simp only [Frame.extended, stepValue]
    split <;> rfl
  | _ => rfl

/-- The end of a statement, unless it is the last one of the program. -/
theorem extended_stepDone {frame : Frame} (hframe : frame = .program [] → more = []) :
    stepDone setting (frame.extended more) (frames.map (·.extended more))
        (state.withTable table) =
      (stepDone setting frame frames state).extended more table := by
  cases frame with
  | block rest outer => cases rest <;> rfl
  | program rest =>
    cases rest with
    | nil =>
      obtain rfl := hframe rfl
      exact congrArg (Machine.mk .done _) (Interpreter.withTable_collectIfDue state table)
    | cons stmt rest =>
      exact congrArg (Machine.mk (.exec stmt) _) (Interpreter.withTable_collectIfDue state table)
  | _ => rfl

theorem extended_stepReturning (value : Value) (frame : Frame) :
    stepReturning value (frame.extended more) (frames.map (·.extended more))
        (state.withTable table) =
      (stepReturning value frame frames state).extended more table := by
  cases frame <;> rfl

theorem extended_stepHalting (halt : Halt) (frame : Frame) :
    stepHalting halt (frame.extended more) (frames.map (·.extended more))
        (state.withTable table) =
      (stepHalting halt frame frames state).extended more table := by
  cases frame <;> rfl

end Steps

/-- The machine has come to the end of its program. -/
def Ends (machine : Machine) : Prop :=
  machine.control = .done ∧ ∃ frames, machine.frames = .program [] :: frames

/-- Before the end of the program nothing depends on what follows behind it. -/
theorem step_extended {setting : Setting} {more : List Stmt} {table : HashMap NodeId Nat}
    {machine : Machine} (hsame : machine.SameTargets setting.lookup table)
    (hends : machine.Ends → more = []) :
    (machine.extended more table).step setting = (machine.step setting).extended more table := by
  obtain ⟨control, frames, state⟩ := machine
  cases control with
  | eval expr =>
    exact extended_stepEval more table frames fun id name line hexpr =>
      hsame.read id name line (congrArg Control.eval hexpr)
  | exec stmt => exact extended_stepExec more table frames stmt
  | gather gathering => exact extended_stepGather more table frames gathering
  | value value =>
    cases frames with
    | nil => rfl
    | cons frame rest =>
      exact extended_stepValue more table rest fun id name line hframe =>
        hsame.write value id name line rest rfl (congrArg (· :: rest) hframe)
  | done =>
    cases frames with
    | nil => rfl
    | cons frame rest =>
      exact extended_stepDone more table rest fun hframe =>
        hends ⟨rfl, rest, congrArg (· :: rest) hframe⟩
  | returning value =>
    cases frames with
    | nil => rfl
    | cons frame rest => exact extended_stepReturning more table rest value frame
  | halting halt =>
    cases frames with
    | nil => rfl
    | cons frame rest => exact extended_stepHalting more table rest halt frame

/-! ## The frames below the innermost one -/

section Frames

variable {setting : Setting} {state : Interpreter} {frames : List Frame}

theorem suffix_call (callee : Value) (args : List Value) (line : Nat) :
    frames <:+ (call setting callee args line frames state).frames := by
  unfold call
  split
  · split
    · exact List.suffix_rfl
    · split
      · exact List.suffix_rfl
      · exact (List.suffix_cons _ _).trans (List.suffix_cons _ _)
  · split
    · exact List.suffix_rfl
    · split
      · exact List.suffix_rfl
      · unfold answer
        split <;> exact List.suffix_rfl
  · exact List.suffix_rfl

theorem suffix_nextArgument (callee : Value) (before : List Value) (rest : List Expr)
    (line : Nat) :
    frames <:+ (nextArgument setting callee before rest line frames state).frames := by
  cases rest with
  | nil => exact suffix_call callee _ line
  | cons arg rest => exact List.suffix_cons _ _

theorem suffix_stepEval (expr : Expr) : frames <:+ (stepEval setting expr frames state).frames := by
  unfold stepEval
  split
  case h_6 => split <;> exact List.suffix_rfl
  all_goals first | exact List.suffix_rfl | exact List.suffix_cons _ _

theorem suffix_stepExec (stmt : Stmt) : frames <:+ (stepExec stmt frames state).frames := by
  unfold stepExec
  split
  case h_12 => split <;> exact List.suffix_rfl
  all_goals first | exact List.suffix_rfl | exact List.suffix_cons _ _

theorem suffix_stepGather (gathering : Gathering) :
    frames <:+ (stepGather gathering frames state).frames := by
  unfold stepGather
  split <;> split <;> first | exact List.suffix_rfl | exact List.suffix_cons _ _

theorem suffix_stepValue (value : Value) (frame : Frame) :
    frames <:+ (stepValue setting value frame frames state).frames := by
  have hdeliver : ∀ outcome line, frames <:+ (deliver outcome line frames state).frames := by
    intro outcome line
    cases outcome <;> exact List.suffix_rfl
  unfold stepValue
  split
  case h_1 => exact hdeliver _ _
  case h_3 => exact hdeliver _ _
  case h_4 => split <;> exact List.suffix_rfl
  case h_5 => split <;> exact List.suffix_rfl
  case h_6 => exact suffix_nextArgument _ _ _ _
  case h_7 => exact suffix_nextArgument _ _ _ _
  case h_9 => split <;> exact List.suffix_rfl
  case h_12 =>
    split
    · exact List.suffix_rfl
    · split <;> exact List.suffix_rfl
  case h_13 => split <;> first | exact List.suffix_rfl | exact List.suffix_cons _ _
  all_goals first | exact List.suffix_rfl | exact List.suffix_cons _ _

theorem suffix_stepDone (frame : Frame) :
    frames <:+ (stepDone setting frame frames state).frames := by
  unfold stepDone
  split <;> first | exact List.suffix_rfl | exact List.suffix_cons _ _

theorem suffix_stepReturning (value : Value) (frame : Frame) :
    frames <:+ (stepReturning value frame frames state).frames := by
  unfold stepReturning
  split <;> first | exact List.suffix_rfl | exact List.suffix_cons _ _

theorem suffix_stepHalting (halt : Halt) (frame : Frame) :
    frames <:+ (stepHalting halt frame frames state).frames := by
  unfold stepHalting
  split <;> exact List.suffix_rfl

end Frames

/-- A step leaves the frames below the innermost one. -/
theorem suffix_step (setting : Setting) (machine : Machine) :
    machine.frames.tail <:+ (machine.step setting).frames := by
  obtain ⟨control, frames, state⟩ := machine
  have htail : frames.tail <:+ frames := List.tail_suffix frames
  cases control with
  | eval expr => exact htail.trans (suffix_stepEval expr)
  | exec stmt => exact htail.trans (suffix_stepExec stmt)
  | gather gathering => exact htail.trans (suffix_stepGather gathering)
  | value value =>
    cases frames with
    | nil => exact List.suffix_rfl
    | cons frame rest => exact suffix_stepValue value frame
  | done =>
    cases frames with
    | nil => exact List.suffix_rfl
    | cons frame rest => exact suffix_stepDone frame
  | returning value =>
    cases frames with
    | nil => exact List.suffix_rfl
    | cons frame rest => exact suffix_stepReturning value frame
  | halting halt =>
    cases frames with
    | nil => exact List.suffix_rfl
    | cons frame rest => exact suffix_stepHalting halt frame

/-- The outermost frame is that of a program. -/
def Rooted (machine : Machine) : Prop := ∃ rest, machine.frames.getLast? = some (.program rest)

theorem Rooted.of_suffix {machine : Machine} {frames : List Frame} {rest : List Stmt}
    (hsuffix : frames <:+ machine.frames) (h : frames.getLast? = some (.program rest)) :
    machine.Rooted := by
  obtain ⟨above, habove⟩ := hsuffix
  refine ⟨rest, ?_⟩
  rw [← habove, List.getLast?_append, h]
  rfl

theorem Rooted.atRest_eq {machine : Machine} (h : machine.Rooted) : machine.atRest = false := by
  obtain ⟨rest, hlast⟩ := h
  obtain ⟨control, frames, state⟩ := machine
  cases frames with
  | nil => cases hlast
  | cons frame below => cases control <;> rfl

theorem atRest_extended (more : List Stmt) (table : HashMap NodeId Nat) (machine : Machine) :
    (machine.extended more table).atRest = machine.atRest := by
  obtain ⟨control, frames, state⟩ := machine
  cases control <;> cases frames <;> rfl

/-- Only the end of the program and a halt remove the frame of the program. -/
theorem Rooted.step {setting : Setting} {machine : Machine} (h : machine.Rooted)
    (hends : ¬ machine.Ends) :
    (machine.step setting).Rooted ∨
      ∃ halt state, machine.step setting = ⟨.halting halt, [], state⟩ := by
  obtain ⟨rest, hlast⟩ := h
  obtain ⟨control, frames, state⟩ := machine
  have hsuffix := suffix_step setting ⟨control, frames, state⟩
  match frames with
  | [] => cases hlast
  | frame :: next :: below =>
    rw [List.getLast?_cons_cons] at hlast
    exact .inl (.of_suffix hsuffix hlast)
  | [frame] =>
    obtain rfl := Option.some.inj hlast
    cases control with
    | eval expr => exact .inl (.of_suffix (suffix_stepEval expr) hlast)
    | exec stmt => exact .inl (.of_suffix (suffix_stepExec stmt) hlast)
    | gather gathering => exact .inl (.of_suffix (suffix_stepGather gathering) hlast)
    | value value => exact .inl ⟨rest, rfl⟩
    | returning value => exact .inl ⟨rest, rfl⟩
    | halting halt => exact .inr ⟨halt, state, rfl⟩
    | done =>
      cases rest with
      | nil => exact absurd ⟨rfl, [], rfl⟩ hends
      | cons stmt rest => exact .inl ⟨rest, rfl⟩

theorem Ends.frames_eq {machine : Machine} (h : machine.Ends)
    (hgrounded : Grounded machine.frames) :
    ∃ state, machine = ⟨.done, [.program []], state⟩ := by
  obtain ⟨control, frames, state⟩ := machine
  obtain ⟨rfl, below, rfl⟩ := h
  obtain rfl : below = [] := hgrounded
  exact ⟨state, rfl⟩

/-- Another table alone makes no difference. -/
theorem after_extended_nil {setting : Setting} {table : HashMap NodeId Nat} {machine : Machine}
    {n : Nat} (hsame : ∀ k < n, (machine.after setting k).SameTargets setting.lookup table) :
    (machine.extended [] table).after setting n = (machine.after setting n).extended [] table := by
  induction n with
  | zero => rfl
  | succ n ih =>
    rw [after_succ, after_succ, ih fun k hk => hsame k (Nat.lt_succ_of_lt hk)]
    exact step_extended (hsame n (Nat.lt_succ_self n)) fun _ => rfl

end Machine

namespace Interpreter

open Machine

variable {setting : Setting} {table : HashMap NodeId Nat} {program more : List Stmt}
  {state : Interpreter}

/-- How far the course of a program, and of one with more behind it, have come. -/
inductive Ahead (setting : Setting) (table : HashMap NodeId Nat) (more : List Stmt)
    (before whole : Machine) (n : Nat) : Prop where
  /-- The program is still running. -/
  | running : whole.after setting n = (before.after setting n).extended more table →
    (before.after setting n).Rooted → Grounded (before.after setting n).frames →
    Ahead setting table more before whole n
  /-- The program was stopped. -/
  | halted {halt : Halt} {final : Interpreter} :
    before.after setting n = ⟨.halting halt, [], final⟩ →
    whole.after setting n = ⟨.halting halt, [], final.withTable table⟩ →
    Ahead setting table more before whole n
  /-- The program has ended, and the rest was then about to run. -/
  | ended {k : Nat} {final : Interpreter} : k ≤ n →
    before.after setting k = ⟨.done, [], final⟩ →
    whole.after setting k = (final.withTable table).start more →
    Ahead setting table more before whole n

/-- A program with more behind it does what the program does, and goes on when that has
ended. -/
theorem start_append {n : Nat}
    (hsame : ∀ k < n, ((state.start program).after setting k).SameTargets setting.lookup table) :
    Ahead setting table more (state.start program) ((state.withTable table).start (program ++ more))
      n := by
  induction n with
  | zero =>
    cases program with
    | nil => exact .ended (Nat.le_refl 0) rfl rfl
    | cons stmt rest => exact .running rfl ⟨rest, rfl⟩ rfl
  | succ n ih =>
    have hnow := hsame n (Nat.lt_succ_self n)
    cases ih fun k hk => hsame k (Nat.lt_succ_of_lt hk) with
    | ended hle hbefore hwhole => exact .ended (Nat.le_succ_of_le hle) hbefore hwhole
    | @halted halt final hbefore hwhole =>
      have hbefore' : (state.start program).after setting (n + 1) = ⟨.halting halt, [], final⟩ := by
        rw [after_succ, hbefore]
        rfl
      refine .halted hbefore' ?_
      rw [after_succ, hwhole]
      rfl
    | running hwhole hrooted hgrounded =>
      by_cases hends : ((state.start program).after setting n).Ends
      · obtain ⟨final, hfinal⟩ := hends.frames_eq hgrounded
        have hbefore : (state.start program).after setting (n + 1) =
            ⟨.done, [], final.collectIfDue setting⟩ := by
          rw [after_succ, hfinal]
          rfl
        refine .ended (Nat.le_refl (n + 1)) hbefore ?_
        rw [after_succ, hwhole, hfinal, ← withTable_collectIfDue]
        cases more <;> rfl
      · have hstep := step_extended hnow fun h => absurd (b := more = []) h hends
        rcases hrooted.step hends with hroot | ⟨halt, last, hhalt⟩
        · refine .running ?_ ?_ ?_
          · rw [after_succ, after_succ, hwhole, hstep]
          · rw [after_succ]
            exact hroot
          · rw [after_succ]
            exact hgrounded.step
        · have hbefore :
              (state.start program).after setting (n + 1) = ⟨.halting halt, [], last⟩ := by
            rw [after_succ, hhalt]
          refine .halted hbefore ?_
          rw [after_succ, hwhole, hstep, hhalt]
          rfl

end Interpreter

end CommandScript
