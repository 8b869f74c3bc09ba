import CommandScript.Proofs.Machine.Release
import CommandScript.Proofs.Machine.Stacking

/-!
# Every exit restores

The interpreter counts calls up and down as it enters and leaves the bodies of functions. Each
call in progress has a frame, so the count can be compared with the frames: a step changes
both or none. A body is entered only while the count is below the limit, and every way to
leave it takes the frame off and counts down. So whatever is carried out ends with the count
and with the current scope that it began with, whether it ends with a value, at its end, by a
`return`, by a fault or by an exit.

* `Machine.calls`: the number of calls in progress.
* `Machine.counts_step`: a step changes the count of calls as it changes the frames.
* `Machine.Begins`: what is about to be carried out.
* `Machine.Begins.restores`: when that has ended, scope and count are what they were.
* `Machine.step_of_calls`: a call is refused if and only if the limit is reached.
* `Interpreter.Idle`: the interpreter between two inputs.
* `Interpreter.every_exit_restores`: all of this in any run after any inputs.
-/

namespace CommandScript

namespace Machine

/-- The number of frames that wait for the end of a called body. -/
def calls : List Frame → Nat
  | [] => 0
  | .call :: frames => calls frames + 1
  | _ :: frames => calls frames

/-- A step starts a call below the limit, ends the innermost one, or does neither; and it
counts accordingly. -/
inductive Counts (frames : List Frame) (state : Interpreter) (next : Machine) : Prop where
  | keeps (frames : calls next.frames = calls frames)
      (depth : next.state.callDepth = state.callDepth)
  | starts (frames : calls next.frames = calls frames + 1)
      (depth : next.state.callDepth = state.callDepth + 1) (below : state.callDepth < maxCallDepth)
  | ends (frames : calls frames = calls next.frames + 1)
      (depth : next.state.callDepth = state.callDepth - 1)

section Steps

variable {setting : Setting} {frames : List Frame} {state : Interpreter}

theorem counts_deliver (outcome : Except RuntimeFault Value) (line : Nat) :
    Counts frames state (deliver outcome line frames state) := by
  cases outcome <;> exact .keeps rfl rfl

theorem callDepth_bindAll (state : Interpreter) (id : ScopeId) (names : List String)
    (values : List Value) : (state.bindAll id names values).callDepth = state.callDepth := by
  induction names generalizing state values with
  | nil => cases values <;> rfl
  | cons name rest ih =>
    cases values with
    | nil => rfl
    | cons value more => exact ih (state.define id name value) more

theorem counts_call (callee : Value) (args : List Value) (line : Nat) :
    Counts frames state (call setting callee args line frames state) := by
  unfold call
  split
  · split
    · exact .keeps rfl rfl
    · split
      · exact .keeps rfl rfl
      · rename_i hlimit
        exact .starts rfl (callDepth_bindAll _ _ _ _) (Nat.lt_of_not_le hlimit)
  · split
    · exact .keeps rfl rfl
    · split
      · exact .keeps rfl rfl
      · unfold answer
        split <;> exact .keeps rfl rfl
  · exact .keeps rfl rfl

theorem counts_nextArgument (callee : Value) (before : List Value) (rest : List Expr)
    (line : Nat) :
    Counts frames state (nextArgument setting callee before rest line frames state) := by
  cases rest with
  | nil => exact counts_call callee _ line
  | cons arg more => exact .keeps rfl rfl

theorem counts_stepEval (expr : Expr) :
    Counts frames state (stepEval setting expr frames state) := by
  cases expr with
  | «variable» id name line =>
    unfold stepEval
    dsimp only
    split <;> exact .keeps rfl rfl
  | _ => exact .keeps rfl rfl

theorem counts_stepExec (stmt : Stmt) : Counts frames state (stepExec stmt frames state) := by
  unfold stepExec
  split
  case h_10 =>
    unfold Interpreter.declareFunction Interpreter.trackCurrent
    split <;> exact .keeps rfl rfl
  case h_12 topic line =>
    have hdepth : (state.carryOut (.help topic)).1.callDepth = state.callDepth := rfl
    split <;> rename_i hcarried <;> rw [hcarried] at hdepth <;> exact .keeps rfl hdepth
  all_goals exact .keeps rfl rfl

theorem counts_stepGather (gathering : Gathering) :
    Counts frames state (stepGather gathering frames state) := by
  unfold stepGather
  split <;> split <;> exact .keeps rfl rfl

/-- Only the frame of a call counts. -/
theorem Counts.cons {frame : Frame} {next : Machine} (hframe : frame ≠ .call)
    (h : Counts frames state next) : Counts (frame :: frames) state next := by
  have hcalls : calls (frame :: frames) = calls frames := by
    cases frame <;> first | rfl | exact absurd rfl hframe
  cases h with
  | keeps hframes hdepth => exact .keeps (hframes.trans hcalls.symm) hdepth
  | starts hframes hdepth hbelow => exact .starts (by rw [hframes, hcalls]) hdepth hbelow
  | ends hframes hdepth => exact .ends (hcalls.trans hframes) hdepth

theorem counts_stepValue (value : Value) (frame : Frame) :
    Counts (frame :: frames) state (stepValue setting value frame frames state) := by
  cases frame with
  | unary op line | right op left line => exact (counts_deliver _ line).cons nofun
  | callee args line => exact (counts_nextArgument value [] args line).cons nofun
  | argument callee before rest line =>
    exact (counts_nextArgument callee (value :: before) rest line).cons nofun
  | print line =>
    have hdepth : (state.write (value.text ++ "\n")).1.callDepth = state.callDepth := rfl
    unfold stepValue
    dsimp only
    split <;> rename_i hwritten <;> rw [hwritten] at hdepth <;> exact .keeps rfl hdepth
  | logical op right | assign id name line | loopTest condition body =>
    unfold stepValue
    dsimp only
    split <;> exact .keeps rfl rfl
  | branch thenBranch elseBranch =>
    unfold stepValue
    dsimp only
    split
    · exact .keeps rfl rfl
    · split <;> exact .keeps rfl rfl
  | _ => exact .keeps rfl rfl

theorem callDepth_collectIfDue (setting : Setting) (state : Interpreter) :
    (state.collectIfDue setting).callDepth = state.callDepth := by
  unfold Interpreter.collectIfDue
  split
  · split <;> rfl
  · rfl

theorem counts_stepDone (frame : Frame) :
    Counts (frame :: frames) state (stepDone setting frame frames state) := by
  cases frame with
  | call => exact .ends rfl rfl
  | block rest outer => cases rest <;> exact .keeps rfl rfl
  | program rest => cases rest <;> exact .keeps rfl (callDepth_collectIfDue setting state)
  | _ => exact .keeps rfl rfl

theorem counts_stepReturning (value : Value) (frame : Frame) :
    Counts (frame :: frames) state (stepReturning value frame frames state) := by
  cases frame with
  | call => exact .ends rfl rfl
  | _ => exact .keeps rfl rfl

theorem counts_stepHalting (halt : Halt) (frame : Frame) :
    Counts (frame :: frames) state (stepHalting halt frame frames state) := by
  cases frame with
  | call => exact .ends rfl rfl
  | _ => exact .keeps rfl rfl

end Steps

theorem counts_step (setting : Setting) (machine : Machine) :
    Counts machine.frames machine.state (machine.step setting) := by
  obtain ⟨control, frames, state⟩ := machine
  cases control with
  | eval expr => exact counts_stepEval expr
  | exec stmt => exact counts_stepExec stmt
  | gather gathering => exact counts_stepGather gathering
  | value value =>
    cases frames with
    | nil => exact .keeps rfl rfl
    | cons frame rest => exact counts_stepValue value frame
  | done =>
    cases frames with
    | nil => exact .keeps rfl rfl
    | cons frame rest => exact counts_stepDone frame
  | returning value =>
    cases frames with
    | nil => exact .keeps rfl rfl
    | cons frame rest => exact counts_stepReturning value frame
  | halting halt =>
    cases frames with
    | nil => exact .keeps rfl rfl
    | cons frame rest => exact counts_stepHalting halt frame

variable {setting : Setting} {machine : Machine}

/-- The count of calls stays as far above the number of frames of calls as it was. -/
theorem callDepth_after {depth : Nat}
    (h : machine.state.callDepth = depth + calls machine.frames) (n : Nat) :
    (machine.after setting n).state.callDepth =
      depth + calls (machine.after setting n).frames := by
  refine after_induction (P := fun later => later.state.callDepth = depth + calls later.frames)
    (fun later hlater => ?_) h n
  cases counts_step setting later with
  | keeps hframes hdepth => omega
  | starts hframes hdepth _ => omega
  | ends hframes hdepth => omega

theorem callDepth_le_after (h : machine.state.callDepth ≤ maxCallDepth) (n : Nat) :
    (machine.after setting n).state.callDepth ≤ maxCallDepth := by
  refine after_induction (P := fun later => later.state.callDepth ≤ maxCallDepth)
    (fun later hlater => ?_) h n
  cases counts_step setting later with
  | keeps _ hdepth => omega
  | starts _ hdepth hbelow => omega
  | ends _ hdepth => omega

theorem frames_of_atRest (h : machine.atRest = true) : machine.frames = [] := by
  obtain ⟨control, frames, state⟩ := machine
  cases frames with
  | nil => rfl
  | cons frame frames => cases control <;> cases h

/-! ## What is carried out -/

/-- The machine is about to carry something out, in the given state and with nothing else to
do: an expression, a statement, the arguments of a command, the statements of a block in a
new scope, a call with evaluated arguments, or a call for the host. -/
inductive Begins (setting : Setting) (state : Interpreter) : Machine → Prop where
  | expression (expr : Expr) : Begins setting state ⟨.eval expr, [], state⟩
  | statement (stmt : Stmt) : Begins setting state ⟨.exec stmt, [], state⟩
  | command (gathering : Gathering) : Begins setting state ⟨.gather gathering, [], state⟩
  | block (body : List Stmt) (parent : ScopeId) :
      Begins setting state ⟨.done, [.block body state.current], state.enter parent⟩
  | call (callee : Value) (args : List Value) (line : Nat) :
      Begins setting state (Machine.call setting callee args line [] state)
  | hostCall (callee : Value) (args : List Value) (line : Nat) :
      Begins setting state (state.startCall setting callee args line)

namespace Begins

variable {state : Interpreter}

theorem home_eq (h : Begins setting state machine) :
    home machine.frames machine.state.current = state.current := by
  cases h with
  | expression expr | statement stmt | command gathering | block body parent => rfl
  | call callee args line => exact (conserves_call callee args line).home
  | hostCall callee args line =>
    unfold Interpreter.startCall
    split
    · rfl
    · unfold answer
      split <;> rfl
    · rfl

theorem callDepth_eq (h : Begins setting state machine) :
    machine.state.callDepth = state.callDepth + calls machine.frames := by
  cases h with
  | expression expr | statement stmt | command gathering | block body parent => rfl
  | call callee args line =>
    have hcounts : Counts [] state (Machine.call setting callee args line [] state) :=
      counts_call callee args line
    cases hcounts with
    | keeps hframes hdepth => rw [hdepth, hframes]; rfl
    | starts hframes hdepth _ => rw [hdepth, hframes]; rfl
    | ends hframes _ => cases hframes
  | hostCall callee args line =>
    unfold Interpreter.startCall
    split
    · exact callDepth_bindAll _ _ _ _
    · unfold answer
      split <;> rfl
    · rfl

/-- What has been carried out leaves the scope and the count of calls as they were. Whatever
waits below takes over with them. -/
theorem restores (h : Begins setting state machine) (base : List Frame) {n : Nat}
    (hrest : (machine.after setting n).atRest = true) :
    (∃ k ≤ n, (machine.onto base).after setting k =
      ⟨(machine.after setting n).control, base, (machine.after setting n).state⟩) ∧
    (machine.after setting n).state.current = state.current ∧
    (machine.after setting n).state.callDepth = state.callDepth := by
  have hframes := frames_of_atRest hrest
  refine ⟨?_, (current_of_atRest hrest).trans h.home_eq, ?_⟩
  · obtain ⟨k, hle, hk⟩ := reaches_onto base hrest
    exact ⟨k, hle, by rw [hk, onto, hframes, List.nil_append]⟩
  · rw [callDepth_after h.callDepth_eq n, hframes]
    rfl

end Begins

/-! ## The limit of calls -/

/-- The callee and all arguments have their values, so the next step is the call. -/
inductive MakesCall : Machine → (callee : Value) → (args : List Value) → (line : Nat) →
    (below : List Frame) → Prop where
  | plain (callee : Value) (line : Nat) (below : List Frame) (state : Interpreter) :
      MakesCall ⟨.value callee, .callee [] line :: below, state⟩ callee [] line below
  | arguments (callee : Value) (before : List Value) (last : Value) (line : Nat)
      (below : List Frame) (state : Interpreter) :
      MakesCall ⟨.value last, .argument callee before [] line :: below, state⟩ callee
        (last :: before).reverse line below

/-- What a call does that is not refused. -/
def admitted (setting : Setting) (callee : Value) (args : List Value) (line : Nat)
    (below : List Frame) (state : Interpreter) : Machine :=
  match callee with
  | .function decl closure _ =>
    enterBody decl closure args (.call :: below) { state with callDepth := state.callDepth + 1 }
  | .native native _ => answer (setting.native native args line) below state
  | _ => raise .notCallable line below state

variable {callee : Value} {args : List Value} {line : Nat} {below : List Frame}

theorem MakesCall.calls_eq (h : MakesCall machine callee args line below) :
    calls machine.frames = calls below := by
  cases h <;> rfl

/-- A call with the right number of arguments is refused at the limit and only there. -/
theorem MakesCall.step_eq (h : MakesCall machine callee args line below)
    (harity : callee.arity? = some args.length) :
    machine.step setting =
      if maxCallDepth ≤ machine.state.callDepth then
        raise .stackOverflow line below machine.state
      else admitted setting callee args line below machine.state := by
  have hstep : machine.step setting = call setting callee args line below machine.state := by
    cases h <;> rfl
  rw [hstep]
  cases callee with
  | function decl closure identity =>
    obtain hlength : decl.params.length = args.length := Option.some.inj harity
    rw [call, if_neg (not_not.mpr hlength.symm), admitted]
  | native native identity =>
    obtain hlength : native.arity = args.length := Option.some.inj harity
    rw [call, if_neg (not_not.mpr hlength.symm), admitted]
  | _ => cases harity

/-- The body of a function starts without a fault, so only a native could answer with one. -/
theorem admitted_ne (harity : callee.arity? = some args.length)
    (hnative : ∀ native identity, callee = .native native identity →
      setting.native native args line ≠ .error ⟨.stackOverflow, line⟩)
    (state : Interpreter) :
    admitted setting callee args line below state ≠ raise .stackOverflow line below state := by
  intro heq
  cases callee with
  | function decl closure identity => cases congrArg Machine.control heq
  | native native identity =>
    have hanswer := hnative native identity rfl
    have hcontrol := congrArg Machine.control heq
    unfold admitted answer raise at hcontrol
    dsimp only at hcontrol
    split at hcontrol
    · cases hcontrol
    · rename_i fault hfault
      obtain rfl : fault = ⟨.stackOverflow, line⟩ := by
        injections
      exact hanswer hfault
  | _ => cases harity

end Machine

namespace Interpreter

open Machine (calls Begins MakesCall admitted raise)

variable {setting : Setting} {state after : Interpreter}

/-- The interpreter between two inputs: in the global scope, and in no call. -/
structure Idle (state : Interpreter) : Prop where
  current : state.current = state.globals
  callDepth : state.callDepth = 0

theorem callDepth_start (state : Interpreter) (program : List Stmt) :
    (state.start program).state.callDepth =
      state.callDepth + calls (state.start program).frames := by
  cases program <;> rfl

theorem Idle.collectAtEnd (h : state.Idle) (setting : Setting) :
    (state.collectAtEnd setting).Idle := by
  unfold Interpreter.collectAtEnd
  split
  · split
    · exact h
    · exact ⟨h.current, h.callDepth⟩
  · exact h

theorem Idle.interpret (h : state.Idle) {program : List Stmt} {budget : Nat}
    {result : Except (Located RuntimeFault) Status}
    (hrun : state.interpret setting budget program = some (result, after)) : after.Idle := by
  obtain ⟨machine, hmachine, hresult⟩ := Option.map_eq_some_iff.mp hrun
  obtain ⟨rfl, hrest⟩ := Machine.run_eq_some_iff.mp hmachine
  obtain rfl : Interpreter.collectAtEnd setting _ = after := congrArg Prod.snd hresult
  refine Idle.collectAtEnd ⟨?_, ?_⟩ setting
  · have hhome : Machine.home (state.start program).frames (state.start program).state.current =
        state.current := by
      cases program <;> rfl
    have hglobals : (state.start program).state.globals = state.globals := by
      cases program <;> rfl
    rw [Machine.current_of_atRest hrest, hhome, h.current, ← hglobals]
    exact (Machine.conserves_after setting budget _).globals.symm
  · rw [Machine.callDepth_after (callDepth_start state program) budget,
      Machine.frames_of_atRest hrest, h.callDepth]
    rfl

theorem Idle.perform (h : state.Idle) {work : HostWork}
    (hwork : state.perform setting work = some after) : after.Idle := by
  cases work with
  | interpret program budget =>
    obtain ⟨⟨result, found⟩, hrun, rfl⟩ := Option.map_eq_some_iff.mp hwork
    exact h.interpret hrun
  | resolve distances | define name value plain | modules registry =>
    obtain rfl := Option.some.inj hwork
    exact ⟨h.current, h.callDepth⟩

theorem Idle.performAll (h : state.Idle) {works : List HostWork}
    (hworks : state.performAll setting works = some after) : after.Idle := by
  induction works generalizing state with
  | nil =>
    obtain rfl := Option.some.inj hworks
    exact h
  | cons work rest ih =>
    obtain ⟨next, hnext, hrest⟩ := Option.bind_eq_some_iff.mp hworks
    exact ih (h.perform hnext) hrest

/-- **Every exit restores.** Whatever is carried out, in any state and above any frames: when
it has ended, in whichever way, the current scope and the count of calls are what they were
before. Let the interpreter have done any work, and let a program run then. The count of calls
is the number of calls in progress and within the limit throughout; a call with the right
number of arguments is refused for its depth if and only if the limit is reached; and after
the run, as before it, the global scope is the current one and no call is counted. -/
theorem every_exit_restores {registry : Registry} {sink : Sink} {works : List HostWork}
    (hworks : (initial setting registry sink).performAll setting works = some state) :
    (∀ (before : Interpreter) (machine : Machine), Begins setting before machine →
      ∀ base n, (machine.after setting n).atRest = true →
        (∃ k ≤ n, (machine.onto base).after setting k =
          ⟨(machine.after setting n).control, base, (machine.after setting n).state⟩) ∧
        (machine.after setting n).state.current = before.current ∧
        (machine.after setting n).state.callDepth = before.callDepth) ∧
    state.Idle ∧
    ∀ program,
      (∀ n, ((state.start program).after setting n).state.callDepth =
          calls ((state.start program).after setting n).frames ∧
        calls ((state.start program).after setting n).frames ≤ maxCallDepth ∧
        ∀ callee args line below,
          MakesCall ((state.start program).after setting n) callee args line below →
          callee.arity? = some args.length →
          (state.start program).after setting (n + 1) =
            (if calls below = maxCallDepth then
              raise .stackOverflow line below ((state.start program).after setting n).state
            else admitted setting callee args line below
              ((state.start program).after setting n).state) ∧
          ((∀ native identity, callee = .native native identity →
              setting.native native args line ≠ .error ⟨.stackOverflow, line⟩) →
            ((state.start program).after setting (n + 1) =
                raise .stackOverflow line below ((state.start program).after setting n).state ↔
              calls below = maxCallDepth))) ∧
      ∀ budget result after,
        state.interpret setting budget program = some (result, after) → after.Idle := by
  have hidle : state.Idle := Idle.performAll ⟨rfl, rfl⟩ hworks
  refine ⟨fun before machine hbegins base n => hbegins.restores base, hidle, fun program =>
    ⟨fun n => ?_, fun budget result after => hidle.interpret⟩⟩
  have hstart := callDepth_start state program
  have hcalls : calls (state.start program).frames = 0 := by cases program <;> rfl
  have hdepth := @Machine.callDepth_after setting _ _ hstart n
  have hlimit : ((state.start program).after setting n).state.callDepth ≤ maxCallDepth := by
    refine Machine.callDepth_le_after ?_ n
    rw [hstart, hcalls, hidle.callDepth]
    exact Nat.zero_le _
  rw [Machine.after_succ]
  rw [hidle.callDepth, Nat.zero_add] at hdepth
  generalize (state.start program).after setting n = machine at hdepth hlimit ⊢
  refine ⟨hdepth, hdepth ▸ hlimit, fun callee args line below hmakes harity => ?_⟩
  -- the count is at most the limit, so the test that it has reached it is an equality
  have htest : maxCallDepth ≤ machine.state.callDepth ↔ calls below = maxCallDepth := by
    rw [← hmakes.calls_eq, ← hdepth]
    exact ⟨Nat.le_antisymm hlimit, Nat.le_of_eq ∘ Eq.symm⟩
  have hstep := @MakesCall.step_eq setting _ _ _ _ _ hmakes harity
  simp only [htest] at hstep
  refine ⟨hstep, fun hnative => ⟨fun hrefused => ?_, fun hfull => ?_⟩⟩
  · by_contra hfree
    rw [if_neg hfree] at hstep
    exact Machine.admitted_ne harity hnative _ (hstep.symm.trans hrefused)
  · rw [hstep, if_pos hfull]

/-- In a block of a called function an unknown name is read. -/
theorem every_exit_restores_of_fault :
    let setting : Setting := ⟨.byName, some 1, fun _ _ _ => .ok .null⟩
    let program : List Stmt :=
      [.function "f" [] [.block [.expression (.variable 0 "missing" 1) 1]] 1,
        .expression (.call (.variable 1 "f" 2) [] 2) 2]
    ∃ state, (initial setting Registry.empty .unlimited).interpret setting 30 program =
        some (.error ⟨.undefinedVariable "missing", 1⟩, state) ∧
      (initial setting Registry.empty .unlimited).performAll setting [.interpret program 30] =
        some state ∧
      state.current = state.globals ∧ state.callDepth = 0 ∧
      ∀ n, ((state.start program).after setting n).state.callDepth =
        calls ((state.start program).after setting n).frames := by
  intro setting program
  have hruns : ((initial setting Registry.empty .unlimited).interpret setting 30 program).map
      Prod.fst = some (.error ⟨.undefinedVariable "missing", 1⟩) := by decide +kernel
  obtain ⟨⟨_, state⟩, hrun, rfl⟩ := Option.map_eq_some_iff.mp hruns
  have hworks : (initial setting Registry.empty .unlimited).performAll setting
      [.interpret program 30] = some state := by
    rw [performAll, List.foldlM_cons, perform, hrun]
    rfl
  obtain ⟨-, hidle, hprograms⟩ := every_exit_restores hworks
  exact ⟨state, hrun, hworks, hidle.current, hidle.callDepth,
    fun n => ((hprograms program).1 n).1⟩

end Interpreter

end CommandScript
