import CommandScript.Proofs.Machine.Dispatch
import CommandScript.Proofs.Machine.Unwinding

/-!
# An output that fills up

An output with a capacity cuts what is written, and nothing else. A program that runs with
such an output takes the same steps as with an unlimited one, as long as everything fits. The
first text that does not fit is written up to the capacity, and its statement fails; nothing
is evaluated, bound, delivered or written after it.

The comparison looks at a single step. Only two kinds of steps write, those that print a value
and those that answer a request for help (`Machine.Writes`); all others neither look at the
output nor write to it. So the machines are kept together by the number of bytes that have
been written so far, and they part where this number passes the capacity.

* `Interpreter.withSink`, `Machine.withSink`: the same with another output.
* `Interpreter.writtenSince`: the bytes written since an earlier state.
* `Machine.Writes`: the next step writes a text.
* `Machine.silent_step`: a step that does not write.
* `Machine.after_within`, `Machine.after_beyond`: the course with a limited output.
* `Interpreter.full_sink_cuts_output`: the result for all programs.
-/

namespace CommandScript

/-- An output that still takes some bytes, and that can be flushed. -/
def Sink.ofRoom (room : Nat) : Sink := ⟨some room, false⟩

namespace Sink

variable {text : String} {room : Nat}

theorem write_of_le (h : text.toUTF8.size ≤ room) :
    (ofRoom room).write text = ⟨text.toUTF8, ofRoom (room - text.toUTF8.size), true⟩ :=
  if_pos h

theorem write_of_lt (h : room < text.toUTF8.size) :
    (ofRoom room).write text = ⟨text.toUTF8.extract 0 room, ofRoom 0, false⟩ :=
  if_neg (Nat.not_le.mpr h)

end Sink

/-! ## The bytes that are written -/

/-- The first bytes of an array that is at most as long. -/
theorem extract_of_size_le {bytes : ByteArray} {count : Nat} (h : bytes.size ≤ count) :
    bytes.extract 0 count = bytes := by
  rw [← Nat.max_eq_left h, ByteArray.extract_zero_max_size]

theorem extract_append_of_le {bytes more : ByteArray} {count : Nat} (h : count ≤ bytes.size) :
    (bytes ++ more).extract 0 count = bytes.extract 0 count := by
  rw [ByteArray.extract_append, Nat.sub_eq_zero_of_le h, Nat.zero_sub, ByteArray.extract_same,
    ByteArray.append_empty]

theorem extract_append_of_ge {bytes more : ByteArray} {count : Nat} (h : bytes.size ≤ count) :
    (bytes ++ more).extract 0 count = bytes ++ more.extract 0 (count - bytes.size) := by
  rw [ByteArray.extract_append, extract_of_size_le h, Nat.zero_sub]

theorem Effect.output_concat_wrote (effects : List Effect) (bytes : ByteArray) :
    Effect.output (effects ++ [.wrote bytes]) = Effect.output effects ++ bytes := by
  rw [output, List.foldl_append]
  rfl

namespace Interpreter

/-- The same interpreter with another output. -/
def withSink (sink : Sink) (state : Interpreter) : Interpreter := { state with sink := sink }

/-- The state in which some bytes have been written and the output is as it is then. -/
def wrote (bytes : ByteArray) (sink : Sink) (state : Interpreter) : Interpreter :=
  { state with sink := sink, effects := state.effects.push (.wrote bytes) }

/-- The bytes that were written after the start, which is an earlier state. -/
def writtenSince (start state : Interpreter) : ByteArray :=
  Effect.output (state.effects.toList.drop start.effects.size)

/-- What has happened before the earlier state has also happened before the later one. -/
def Precedes (start state : Interpreter) : Prop :=
  ∃ more, state.effects.toList = start.effects.toList ++ more

/-- Between two states, commands have been delivered, and that is all. -/
def Delivers (state later : Interpreter) : Prop :=
  ∃ deliveries : List Delivery,
    later.effects = state.effects ++ (deliveries.map Effect.delivered).toArray

section Bytes

variable {start state later : Interpreter}

theorem writtenSince_self (start : Interpreter) : start.writtenSince start = ByteArray.empty := by
  rw [writtenSince, ← Array.length_toList, List.drop_length]
  rfl

theorem Precedes.refl (start : Interpreter) : Precedes start start :=
  ⟨[], (List.append_nil _).symm⟩

theorem Delivers.of_eq (h : later.effects = state.effects) : Delivers state later :=
  ⟨[], h.trans Array.append_empty.symm⟩

theorem Precedes.delivers (h : Precedes start state) (hmore : Delivers state later) :
    Precedes start later ∧ start.writtenSince later = start.writtenSince state := by
  obtain ⟨more, hstate⟩ := h
  obtain ⟨deliveries, hlater⟩ := hmore
  have hall : later.effects.toList =
      start.effects.toList ++ (more ++ deliveries.map .delivered) := by
    rw [hlater, Array.toList_append, hstate, List.append_assoc]
  refine ⟨⟨_, hall⟩, ?_⟩
  rw [writtenSince, writtenSince, hall, hstate, ← Array.length_toList, List.drop_left,
    List.drop_left, Effect.output_append_delivered]

theorem Precedes.wrote (h : Precedes start state) (bytes : ByteArray) (sink : Sink) :
    Precedes start (state.wrote bytes sink) ∧
      start.writtenSince (state.wrote bytes sink) = start.writtenSince state ++ bytes := by
  obtain ⟨more, hstate⟩ := h
  have hall : (state.wrote bytes sink).effects.toList =
      start.effects.toList ++ (more ++ [.wrote bytes]) := by
    rw [Interpreter.wrote, Array.toList_push, hstate, List.append_assoc]
  refine ⟨⟨_, hall⟩, ?_⟩
  rw [writtenSince, writtenSince, hall, hstate, ← Array.length_toList, List.drop_left,
    List.drop_left, Effect.output_concat_wrote]

end Bytes

end Interpreter

open Interpreter (Precedes Delivers)

namespace Machine

def withSink (sink : Sink) (machine : Machine) : Machine :=
  { machine with state := machine.state.withSink sink }

/-! ## Steps that write -/

/-- The next step writes the text, on behalf of a statement on the line. -/
inductive Writes : Machine → (text : String) → (line : Nat) → (below : List Frame) → Prop where
  | print (value : Value) (line : Nat) (below : List Frame) (state : Interpreter) :
      Writes ⟨.value value, .print line :: below, state⟩ (value.text ++ "\n") line below
  | help (topic : Option String) (line : Nat) (below : List Frame) (state : Interpreter) :
      Writes ⟨.exec (.command (.help topic line)), below, state⟩ (state.registry.helpLine topic)
        line below

section Writing

variable {setting : Setting} {machine : Machine} {text : String} {line : Nat}
  {below : List Frame}

theorem help_eq_write (state : Interpreter) (topic : Option String) :
    state.carryOut (.help topic) =
      ((state.write (state.registry.helpLine topic)).1,
        if (state.write (state.registry.helpLine topic)).2 then some .completed else none) := by
  rw [Interpreter.carryOut, Registry.carryOut, Interpreter.write, Array.push_eq_append]

theorem Writes.step_eq (h : Writes machine text line below) :
    machine.step setting =
      if (machine.state.write text).2 then ⟨.done, below, (machine.state.write text).1⟩
      else raise (.output Sink.fullDetails) line below (machine.state.write text).1 := by
  cases h with
  | print value line below state =>
    dsimp only [step, stepValue]
    generalize state.write (value.text ++ "\n") = written
    obtain ⟨next, complete⟩ := written
    cases complete <;> rfl
  | help topic line below state =>
    dsimp only [step, stepExec]
    rw [help_eq_write]
    generalize state.write (state.registry.helpLine topic) = written
    obtain ⟨next, complete⟩ := written
    cases complete <;> rfl

theorem Writes.withSink (h : Writes machine text line below) (sink : Sink) :
    Writes (machine.withSink sink) text line below := by
  cases h with
  | print value line below state => exact .print value line below (state.withSink sink)
  | help topic line below state => exact .help topic line below (state.withSink sink)

theorem Writes.step_unlimited (h : Writes machine text line below)
    (hsink : machine.state.sink = .unlimited) :
    machine.step setting = ⟨.done, below, machine.state.wrote text.toUTF8 .unlimited⟩ := by
  rw [h.step_eq, Interpreter.write, hsink]
  rfl

variable {room : Nat}

theorem Writes.step_of_le (h : Writes machine text line below) (hroom : text.toUTF8.size ≤ room) :
    (machine.withSink (.ofRoom room)).step setting =
      ⟨.done, below, machine.state.wrote text.toUTF8 (.ofRoom (room - text.toUTF8.size))⟩ := by
  have hwrite : (machine.withSink (.ofRoom room)).state.sink.write text = _ :=
    Sink.write_of_le hroom
  rw [(h.withSink _).step_eq, Interpreter.write, hwrite]
  rfl

theorem Writes.step_of_lt (h : Writes machine text line below) (hroom : room < text.toUTF8.size) :
    (machine.withSink (.ofRoom room)).step setting =
      raise (.output Sink.fullDetails) line below
        (machine.state.wrote (text.toUTF8.extract 0 room) (.ofRoom 0)) := by
  have hwrite : (machine.withSink (.ofRoom room)).state.sink.write text = _ :=
    Sink.write_of_lt hroom
  rw [(h.withSink _).step_eq, Interpreter.write, hwrite]
  rfl

end Writing

/-! ## Steps that do not write -/

/-- With another output the step leads to the same machine with that output, and all that
happens is that commands are delivered. -/
structure Silent (sink : Sink) (state : Interpreter) (next other : Machine) : Prop where
  same : other = next.withSink sink
  delivers : Delivers state next.state

section Silent

variable {setting : Setting} {sink : Sink} {state : Interpreter} {frames : List Frame}

theorem silent_deliver (outcome : Except RuntimeFault Value) (line : Nat) :
    Silent sink state (deliver outcome line frames state)
      (deliver outcome line frames (state.withSink sink)) := by
  cases outcome <;> exact ⟨rfl, .of_eq rfl⟩

theorem bindAll_withSink (state : Interpreter) (id : ScopeId) (names : List String)
    (values : List Value) :
    (state.withSink sink).bindAll id names values =
        (state.bindAll id names values).withSink sink ∧
      (state.bindAll id names values).effects = state.effects := by
  induction names generalizing state values with
  | nil => cases values <;> exact ⟨rfl, rfl⟩
  | cons name names ih =>
    cases values with
    | nil => exact ⟨rfl, rfl⟩
    | cons value values => exact ih (state.define id name value) values

theorem silent_enterBody (decl : FunctionDecl) (closure : ScopeId) (args : List Value)
    (depth : Nat) :
    Silent sink state (enterBody decl closure args frames { state with callDepth := depth })
      (enterBody decl closure args frames
        { state.withSink sink with callDepth := depth }) := by
  have hbound := @bindAll_withSink sink
    (Interpreter.enter { state with callDepth := depth } closure) state.scopes.nextId
    decl.params args
  exact ⟨congrArg (Machine.mk .done _) hbound.1, .of_eq hbound.2⟩

theorem silent_call (callee : Value) (args : List Value) (line : Nat) :
    Silent sink state (call setting callee args line frames state)
      (call setting callee args line frames (state.withSink sink)) := by
  have hdepth : (state.withSink sink).callDepth = state.callDepth := rfl
  cases callee with
  | function decl closure identity =>
    simp only [call, hdepth]
    split
    · exact ⟨rfl, .of_eq rfl⟩
    · split
      · exact ⟨rfl, .of_eq rfl⟩
      · exact silent_enterBody decl closure args _
  | native native identity =>
    simp only [call, hdepth]
    split
    · exact ⟨rfl, .of_eq rfl⟩
    · split
      · exact ⟨rfl, .of_eq rfl⟩
      · cases setting.native native args line <;> exact ⟨rfl, .of_eq rfl⟩
  | null | bool | number | string => exact ⟨rfl, .of_eq rfl⟩

theorem silent_nextArgument (callee : Value) (before : List Value) (rest : List Expr)
    (line : Nat) :
    Silent sink state (nextArgument setting callee before rest line frames state)
      (nextArgument setting callee before rest line frames (state.withSink sink)) := by
  cases rest with
  | nil => exact silent_call callee _ line
  | cons arg more => exact ⟨rfl, .of_eq rfl⟩

theorem silent_stepEval (expr : Expr) :
    Silent sink state (stepEval setting expr frames state)
      (stepEval setting expr frames (state.withSink sink)) := by
  cases expr with
  | «variable» id name line =>
    have hread : (state.withSink sink).lookUp? setting.lookup id name =
        state.lookUp? setting.lookup id name := rfl
    simp only [stepEval, hread]
    split <;> exact ⟨rfl, .of_eq rfl⟩
  | _ => exact ⟨rfl, .of_eq rfl⟩

theorem silent_declareFunction (decl : FunctionDecl) :
    Silent sink state ⟨.done, frames, state.declareFunction decl⟩
      ⟨.done, frames, (state.withSink sink).declareFunction decl⟩ := by
  have htrack : (state.withSink sink).trackCurrent = state.trackCurrent.withSink sink ∧
      state.trackCurrent.effects = state.effects := by
    unfold Interpreter.trackCurrent
    by_cases hglobal : state.current = state.globals
    · rw [if_pos hglobal]
      exact ⟨if_pos hglobal, rfl⟩
    · rw [if_neg hglobal]
      exact ⟨if_neg hglobal, rfl⟩
  refine ⟨?_, .of_eq htrack.2⟩
  simp only [Interpreter.declareFunction, htrack.1]
  rfl

theorem silent_stepExec {stmt : Stmt} (h : ∀ topic line, stmt ≠ .command (.help topic line)) :
    Silent sink state (stepExec stmt frames state)
      (stepExec stmt frames (state.withSink sink)) := by
  cases stmt with
  | function name params body line => exact silent_declareFunction _
  | «return» value line => cases value <;> exact ⟨rfl, .of_eq rfl⟩
  | declare name initializer line => cases initializer <;> exact ⟨rfl, .of_eq rfl⟩
  | command action =>
    cases action with
    | help topic line => exact absurd rfl (h topic line)
    | _ => exact ⟨rfl, .of_eq rfl⟩
  | _ => exact ⟨rfl, .of_eq rfl⟩

theorem silent_stepGather (gathering : Gathering) :
    Silent sink state (stepGather gathering frames state)
      (stepGather gathering frames (state.withSink sink)) := by
  unfold stepGather
  split
  · split <;> exact ⟨rfl, .of_eq rfl⟩
  · split
    -- the command is delivered
    · exact ⟨rfl, _, rfl⟩
    all_goals exact ⟨rfl, .of_eq rfl⟩

theorem silent_stepValue (value : Value) {frame : Frame} (h : ∀ line, frame ≠ .print line) :
    Silent sink state (stepValue setting value frame frames state)
      (stepValue setting value frame frames (state.withSink sink)) := by
  cases frame with
  | print line => exact absurd rfl (h line)
  | unary op line | right op left line => exact silent_deliver _ line
  | callee args line => exact silent_nextArgument value [] args line
  | argument callee before rest line =>
    exact silent_nextArgument callee (value :: before) rest line
  | assign id name line =>
    have htarget : (state.withSink sink).target? setting.lookup id name =
        state.target? setting.lookup id name := rfl
    simp only [stepValue, htarget]
    split <;> exact ⟨rfl, .of_eq rfl⟩
  | logical op right | loopTest condition body =>
    simp only [stepValue]
    split <;> exact ⟨rfl, .of_eq rfl⟩
  | branch thenBranch elseBranch =>
    simp only [stepValue]
    split
    · exact ⟨rfl, .of_eq rfl⟩
    · cases elseBranch <;> exact ⟨rfl, .of_eq rfl⟩
  | _ => exact ⟨rfl, .of_eq rfl⟩

theorem silent_collectIfDue (control : Control) :
    Silent sink state ⟨control, frames, state.collectIfDue setting⟩
      ⟨control, frames, (state.withSink sink).collectIfDue setting⟩ := by
  have hdue : (state.withSink sink).captured.isDue = state.captured.isDue := rfl
  unfold Interpreter.collectIfDue
  cases setting.collectFrom with
  | none => exact ⟨rfl, .of_eq rfl⟩
  | some minimum =>
    dsimp only
    rw [hdue]
    split <;> exact ⟨rfl, .of_eq rfl⟩

theorem silent_stepDone (frame : Frame) :
    Silent sink state (stepDone setting frame frames state)
      (stepDone setting frame frames (state.withSink sink)) := by
  cases frame with
  | block rest outer => cases rest <;> exact ⟨rfl, .of_eq rfl⟩
  | program rest => cases rest <;> exact silent_collectIfDue _
  | _ => exact ⟨rfl, .of_eq rfl⟩

theorem silent_stepReturning (value : Value) (frame : Frame) :
    Silent sink state (stepReturning value frame frames state)
      (stepReturning value frame frames (state.withSink sink)) := by
  cases frame <;> exact ⟨rfl, .of_eq rfl⟩

theorem silent_stepHalting (halt : Halt) (frame : Frame) :
    Silent sink state (stepHalting halt frame frames state)
      (stepHalting halt frame frames (state.withSink sink)) := by
  cases frame <;> exact ⟨rfl, .of_eq rfl⟩

end Silent

/-- A step that does not write does not depend on the output. -/
theorem silent_step (setting : Setting) (sink : Sink) {machine : Machine}
    (h : ∀ text line below, ¬ Writes machine text line below) :
    Silent sink machine.state (machine.step setting)
      ((machine.withSink sink).step setting) := by
  obtain ⟨control, frames, state⟩ := machine
  cases control with
  | eval expr => exact silent_stepEval expr
  | exec stmt =>
    apply silent_stepExec
    rintro topic line rfl
    exact h _ _ _ (.help topic line frames state)
  | gather gathering => exact silent_stepGather gathering
  | value value =>
    cases frames with
    | nil => exact ⟨rfl, .of_eq rfl⟩
    | cons frame rest =>
      apply silent_stepValue
      rintro line rfl
      exact h _ _ _ (.print value line rest state)
  | done =>
    cases frames with
    | nil => exact ⟨rfl, .of_eq rfl⟩
    | cons frame rest => exact silent_stepDone frame
  | returning value =>
    cases frames with
    | nil => exact ⟨rfl, .of_eq rfl⟩
    | cons frame rest => exact silent_stepReturning value frame
  | halting halt =>
    cases frames with
    | nil => exact ⟨rfl, .of_eq rfl⟩
    | cons frame rest => exact silent_stepHalting halt frame

/-! ## The course with a limited output -/

/-- A step with an unlimited output, from which some bytes have been written since the start. -/
inductive Goes (setting : Setting) (start : Interpreter) (machine next : Machine) : Prop where
  | silently (written : start.writtenSince next.state = start.writtenSince machine.state)
      (same : ∀ sink, (machine.withSink sink).step setting = next.withSink sink)
  | writing {text : String} {line : Nat} {below : List Frame}
      (writes : Writes machine text line below)
      (written : start.writtenSince next.state =
        start.writtenSince machine.state ++ text.toUTF8)
      (next : next = ⟨.done, below, machine.state.wrote text.toUTF8 .unlimited⟩)

theorem goes_step (setting : Setting) {start : Interpreter} {machine : Machine}
    (hsink : machine.state.sink = .unlimited) (hstart : Precedes start machine.state) :
    Goes setting start machine (machine.step setting) ∧
      (machine.step setting).state.sink = .unlimited ∧
      Precedes start (machine.step setting).state := by
  by_cases hwrites : ∃ text line below, Writes machine text line below
  · obtain ⟨text, line, below, hwrites⟩ := hwrites
    have hstep := @Writes.step_unlimited setting _ _ _ _ hwrites hsink
    obtain ⟨hmore, hwritten⟩ := hstart.wrote text.toUTF8 .unlimited
    rw [hstep]
    exact ⟨.writing hwrites hwritten rfl, rfl, hmore⟩
  · have hsilent := fun sink => silent_step setting sink
      fun text line below h => hwrites ⟨text, line, below, h⟩
    obtain ⟨hmore, hwritten⟩ := hstart.delivers (hsilent .unlimited).delivers
    refine ⟨.silently hwritten fun sink => (hsilent sink).same, ?_, hmore⟩
    -- the machine has an unlimited output already
    have hself : machine.withSink .unlimited = machine := by
      rw [withSink, Interpreter.withSink, ← hsink]
    have hsame := (hsilent .unlimited).same
    rw [hself] at hsame
    rw [hsame]
    rfl

section Course

variable (setting : Setting) (machine : Machine)

/-- The machine after some steps with an unlimited output. -/
def freely (n : Nat) : Machine := (machine.withSink .unlimited).after setting n

/-- What the machine writes in some steps, with an unlimited output. -/
def written (n : Nat) : ByteArray :=
  machine.state.writtenSince (machine.freely setting n).state

theorem unlimited_freely (n : Nat) :
    (machine.freely setting n).state.sink = .unlimited ∧
      Precedes machine.state (machine.freely setting n).state := by
  refine after_induction (P := fun later =>
    later.state.sink = .unlimited ∧ Precedes machine.state later.state) ?_ ?_ n
  · rintro later ⟨hsink, hstart⟩
    exact (goes_step setting hsink hstart).2
  · exact ⟨rfl, Precedes.refl machine.state⟩

theorem goes_freely (n : Nat) :
    Goes setting machine.state (machine.freely setting n) (machine.freely setting (n + 1)) := by
  obtain ⟨hsink, hstart⟩ := unlimited_freely setting machine n
  have hgoes := (goes_step setting hsink hstart).1
  rwa [freely, ← after_succ] at hgoes

theorem written_zero : machine.written setting 0 = ByteArray.empty :=
  machine.state.writtenSince_self

theorem written_succ (n : Nat) :
    ∃ more, machine.written setting (n + 1) = machine.written setting n ++ more := by
  cases goes_freely setting machine n with
  | silently hwritten _ => exact ⟨ByteArray.empty, hwritten.trans ByteArray.append_empty.symm⟩
  | writing _ hwritten _ => exact ⟨_, hwritten⟩

theorem written_of_le {k n : Nat} (h : k ≤ n) :
    ∃ more, machine.written setting n = machine.written setting k ++ more := by
  induction h with
  | refl => exact ⟨ByteArray.empty, ByteArray.append_empty.symm⟩
  | @step n _ ih =>
    obtain ⟨more, hmore⟩ := ih
    obtain ⟨last, hlast⟩ := written_succ setting machine n
    exact ⟨more ++ last, by rw [hlast, hmore, ByteArray.append_assoc]⟩

variable {setting machine} {capacity : Nat}

/-- As long as everything fits, a limited output makes no difference. -/
theorem after_within {n : Nat} (h : (machine.written setting n).size ≤ capacity) :
    (machine.withSink (.ofRoom capacity)).after setting n =
      (machine.freely setting n).withSink
        (.ofRoom (capacity - (machine.written setting n).size)) := by
  induction n with
  | zero =>
    rw [written_zero, ByteArray.size_empty]
    rfl
  | succ n ih =>
    obtain ⟨more, hmore⟩ := written_succ setting machine n
    have hbefore : (machine.written setting n).size ≤ capacity := by
      rw [hmore, ByteArray.size_append] at h
      omega
    rw [after_succ, ih hbefore]
    cases goes_freely setting machine n with
    | silently hwritten hsame =>
      rw [hsame, written, written, hwritten]
    | @writing text _ _ hwrites hwritten hnext =>
      have hsize : (machine.written setting (n + 1)).size =
          (machine.written setting n).size + text.toUTF8.size :=
        (congrArg ByteArray.size hwritten).trans ByteArray.size_append
      rw [hwrites.step_of_le (by omega), hnext, hsize, Nat.sub_sub]
      rfl

/-- Otherwise the output is passed in one of the steps. -/
theorem exists_crossing {n : Nat} (h : capacity < (machine.written setting n).size) :
    ∃ k < n, (machine.written setting k).size ≤ capacity ∧
      capacity < (machine.written setting (k + 1)).size := by
  induction n with
  | zero =>
    rw [written_zero, ByteArray.size_empty] at h
    omega
  | succ n ih =>
    by_cases hn : capacity < (machine.written setting n).size
    · obtain ⟨k, hk, hcrossing⟩ := ih hn
      exact ⟨k, by omega, hcrossing⟩
    · exact ⟨n, by omega, by omega, h⟩

/-- There a text is cut. -/
theorem after_beyond {k : Nat} (hbefore : (machine.written setting k).size ≤ capacity)
    (hbeyond : capacity < (machine.written setting (k + 1)).size) :
    ∃ text line below, Writes (machine.freely setting k) text line below ∧
      machine.written setting (k + 1) = machine.written setting k ++ text.toUTF8 ∧
      (machine.withSink (.ofRoom capacity)).after setting (k + 1) =
        raise (.output Sink.fullDetails) line below ((machine.freely setting k).state.wrote
          (text.toUTF8.extract 0 (capacity - (machine.written setting k).size)) (.ofRoom 0)) := by
  cases goes_freely setting machine k with
  | silently hwritten _ =>
    have hsame : machine.written setting (k + 1) = machine.written setting k := hwritten
    rw [hsame] at hbeyond
    omega
  | @writing text line below hwrites hwritten _ =>
    refine ⟨text, line, below, hwrites, hwritten, ?_⟩
    have hsize : (machine.written setting (k + 1)).size =
        (machine.written setting k).size + text.toUTF8.size :=
      (congrArg ByteArray.size hwritten).trans ByteArray.size_append
    rw [after_succ, after_within hbefore]
    exact hwrites.step_of_lt (by omega)

/-- At every time the first bytes have been written that the output can take. -/
theorem written_limited (n : Nat) :
    machine.state.writtenSince ((machine.withSink (.ofRoom capacity)).after setting n).state =
      (machine.written setting n).extract 0 capacity := by
  by_cases hn : (machine.written setting n).size ≤ capacity
  · rw [after_within hn, extract_of_size_le hn]
    rfl
  · obtain ⟨k, hk, hbefore, hbeyond⟩ := exists_crossing (Nat.lt_of_not_le hn)
    obtain ⟨text, line, below, -, hwritten, hcut⟩ := after_beyond hbefore hbeyond
    obtain ⟨rest, hrest⟩ := written_of_le setting machine (Nat.succ_le_of_lt hk)
    obtain ⟨more, rfl⟩ := Nat.exists_eq_add_of_le (Nat.succ_le_of_lt hk)
    -- from the cut on, nothing is written
    have heffects :
        ((machine.withSink (.ofRoom capacity)).after setting (k + 1 + more)).state.effects =
        ((machine.freely setting k).state.wrote
          (text.toUTF8.extract 0 (capacity - (machine.written setting k).size))
          (.ofRoom 0)).effects := by
      rw [after_add, hcut]
      exact (after_of_halting rfl more).2.2
    obtain ⟨-, hstart⟩ := unlimited_freely setting machine k
    rw [Interpreter.writtenSince, heffects]
    refine (hstart.wrote _ _).2.trans ?_
    rw [hrest, extract_append_of_le (Nat.le_of_lt hbeyond), hwritten,
      extract_append_of_ge hbefore]
    rfl

end Course

end Machine

namespace Interpreter

open Machine (Writes unwind)

theorem interpret_eq_some_iff {setting : Setting} {state : Interpreter} {program : List Stmt}
    {budget : Nat} {result : Except (Located RuntimeFault) Status} {final : Interpreter} :
    state.interpret setting budget program = some (result, final) ↔
      ((state.start program).after setting budget).atRest = true ∧
      outcome ((state.start program).after setting budget).control
        ((state.start program).after setting budget).state.sink.flushFails = result ∧
      ((state.start program).after setting budget).state.collectAtEnd setting = final := by
  constructor
  · intro h
    obtain ⟨machine, hrun, hanswer⟩ := Option.map_eq_some_iff.mp h
    obtain ⟨rfl, hrest⟩ := Machine.run_eq_some_iff.mp hrun
    exact ⟨hrest, congrArg Prod.fst hanswer, congrArg Prod.snd hanswer⟩
  · rintro ⟨hrest, rfl, rfl⟩
    rw [interpret, Machine.run_eq_some_iff.mpr ⟨rfl, hrest⟩]
    rfl

theorem start_withSink (state : Interpreter) (program : List Stmt) (sink : Sink) :
    (state.withSink sink).start program = (state.start program).withSink sink := by
  cases program <;> rfl

theorem collectAtEnd_withSink (setting : Setting) (state : Interpreter) (sink : Sink) :
    (state.withSink sink).collectAtEnd setting = (state.collectAtEnd setting).withSink sink ∧
      (state.collectAtEnd setting).effects = state.effects := by
  have hhandles : (state.withSink sink).captured.handles = state.captured.handles := rfl
  unfold collectAtEnd
  cases setting.collectFrom with
  | none => exact ⟨rfl, rfl⟩
  | some minimum =>
    dsimp only
    rw [hhandles]
    split <;> exact ⟨rfl, rfl⟩

theorem writtenSince_collectAtEnd (setting : Setting) (start state : Interpreter) :
    start.writtenSince (state.collectAtEnd setting) = start.writtenSince state := by
  rw [writtenSince, (collectAtEnd_withSink setting state .unlimited).2, writtenSince]

/-- What a run has written when it answers, it has written at any later time. -/
theorem writtenSince_of_interpret {setting : Setting} {start state final : Interpreter}
    {program : List Stmt} {budget later : Nat} {result : Except (Located RuntimeFault) Status}
    (h : state.interpret setting budget program = some (result, final)) (hle : budget ≤ later) :
    start.writtenSince final =
      start.writtenSince ((state.start program).after setting later).state := by
  obtain ⟨hrest, -, rfl⟩ := interpret_eq_some_iff.mp h
  obtain ⟨more, rfl⟩ := Nat.exists_eq_add_of_le hle
  rw [Machine.after_add, Machine.after_of_atRest hrest, writtenSince_collectAtEnd]

section Answers

variable {setting : Setting} {state final : Interpreter} {program : List Stmt} {capacity : Nat}
  {budget : Nat} {result : Except (Located RuntimeFault) Status}

theorem after_unlimited (setting : Setting) (state : Interpreter) (program : List Stmt) (n : Nat) :
    ((state.withSink .unlimited).start program).after setting n =
      (state.start program).freely setting n := by
  rw [start_withSink, Machine.freely]

theorem writtenSince_freely (setting : Setting) (state : Interpreter) (program : List Stmt)
    (n : Nat) :
    state.writtenSince ((state.start program).freely setting n).state =
      (state.start program).written setting n := by
  cases program <;> rfl

theorem flushFails_freely (n : Nat) :
    ((state.start program).freely setting n).state.sink.flushFails = false := by
  rw [(Machine.unlimited_freely setting (state.start program) n).1]
  rfl

theorem writtenSince_limited (n : Nat) :
    state.writtenSince (((state.withSink (.ofRoom capacity)).start program).after setting n).state =
      ((state.start program).written setting n).extract 0 capacity := by
  rw [start_withSink, ← Machine.written_limited]
  cases program <;> rfl

/-- If everything fits, the run with a limited output ends in the same way. -/
theorem limited_within
    (hanswer : (state.withSink .unlimited).interpret setting budget program = some (result, final))
    (hsize : (state.writtenSince final).size ≤ capacity) :
    (state.withSink (.ofRoom capacity)).interpret setting budget program =
      some (result, final.withSink (.ofRoom (capacity - (state.writtenSince final).size))) := by
  have hwritten : state.writtenSince final = (state.start program).written setting budget := by
    rw [writtenSince_of_interpret hanswer (Nat.le_refl budget), after_unlimited,
      writtenSince_freely]
  rw [hwritten] at hsize ⊢
  rw [interpret_eq_some_iff, after_unlimited, flushFails_freely] at hanswer
  rw [interpret_eq_some_iff, start_withSink, Machine.after_within hsize]
  obtain ⟨hrest, rfl, rfl⟩ := hanswer
  exact ⟨hrest, rfl, (collectAtEnd_withSink setting _ _).1⟩

/-- If a text does not fit, the run with a limited output ends with it. -/
theorem limited_beyond {k : Nat}
    (hbefore : ((state.start program).written setting k).size ≤ capacity)
    (hbeyond : capacity < ((state.start program).written setting (k + 1)).size) :
    let before := (state.start program).written setting k
    ∃ text line below, Writes ((state.start program).freely setting k) text line below ∧
      capacity < (before ++ text.toUTF8).size ∧
      ∀ budget > k + below.length,
        (state.withSink (.ofRoom capacity)).interpret setting budget program =
          some (.error ⟨.output Sink.fullDetails, line⟩,
            (unwind below (((state.start program).freely setting k).state.wrote
              (text.toUTF8.extract 0 (capacity - before.size))
              (.ofRoom 0))).collectAtEnd setting) := by
  obtain ⟨text, line, below, hwrites, hmore, hcut⟩ := Machine.after_beyond hbefore hbeyond
  rw [hmore] at hbeyond
  refine ⟨text, line, below, hwrites, hbeyond, fun budget hbudget => ?_⟩
  rw [← start_withSink] at hcut
  rw [Machine.halts_with hcut (by omega)]
  rfl

/-- There is no other way in which the run with a limited output ends. -/
theorem limited_ends
    (hanswer : (state.withSink (.ofRoom capacity)).interpret setting budget program =
      some (result, final))
    (hsize : ((state.start program).written setting budget).size ≤ capacity) :
    ∃ final, (state.withSink .unlimited).interpret setting budget program = some (result, final) ∧
      (state.writtenSince final).size ≤ capacity := by
  rw [interpret_eq_some_iff, start_withSink, Machine.after_within hsize] at hanswer
  obtain ⟨hrest, rfl, -⟩ := hanswer
  refine ⟨_, interpret_eq_some_iff.mpr ⟨?_, ?_, rfl⟩, ?_⟩
  · rw [after_unlimited]
    exact hrest
  · rw [after_unlimited, flushFails_freely]
    rfl
  · rwa [writtenSince_collectAtEnd, after_unlimited, writtenSince_freely]

end Answers

/-- **A full output cuts what is written, and nothing else.** Let a program run with an
unlimited output and with one that takes so many bytes. At every time the second run has
written the first bytes of what the first run has written, whether or not they ever end. If
the first run ends and everything fits, the second one ends in the same way, with the same
effects and in the same state. If not everything fits, the first run comes to the statement
whose text passes the capacity, and the second run ends there, with the fault of the output
on the line of this statement: what has been bound and delivered is what the first run had
bound and delivered before. There is no other way in which the second run ends. -/
theorem full_sink_cuts_output (setting : Setting) (state : Interpreter) (program : List Stmt)
    (capacity : Nat) :
    let free := state.withSink .unlimited
    let limited := state.withSink (.ofRoom capacity)
    (∀ n, state.writtenSince ((limited.start program).after setting n).state =
      (state.writtenSince ((free.start program).after setting n).state).extract 0 capacity) ∧
    (∀ budget budget' result result' final final',
      free.interpret setting budget program = some (result, final) →
      limited.interpret setting budget' program = some (result', final') →
      state.writtenSince final' = (state.writtenSince final).extract 0 capacity) ∧
    (∀ budget result final,
      free.interpret setting budget program = some (result, final) →
      (state.writtenSince final).size ≤ capacity →
      limited.interpret setting budget program =
        some (result, final.withSink (.ofRoom (capacity - (state.writtenSince final).size)))) ∧
    (∀ n, capacity < (state.writtenSince ((free.start program).after setting n).state).size →
      ∃ k < n, ∃ text line below,
        let stopped := ((free.start program).after setting k).state
        let before := state.writtenSince stopped
        Writes ((free.start program).after setting k) text line below ∧
        before.size ≤ capacity ∧ capacity < (before ++ text.toUTF8).size ∧
        ∀ budget > k + below.length,
          limited.interpret setting budget program =
            some (.error ⟨.output Sink.fullDetails, line⟩,
              (unwind below (stopped.wrote (text.toUTF8.extract 0 (capacity - before.size))
                (.ofRoom 0))).collectAtEnd setting)) ∧
    ∀ budget result final',
      limited.interpret setting budget program = some (result, final') →
      (∃ final, free.interpret setting budget program = some (result, final) ∧
        (state.writtenSince final).size ≤ capacity) ∨
      capacity < (state.writtenSince ((free.start program).after setting budget).state).size := by
  simp only [after_unlimited, writtenSince_freely]
  refine ⟨writtenSince_limited, ?_, ?_, ?_, ?_⟩
  · intro budget budget' result result' final final' hanswer hanswer'
    rw [writtenSince_of_interpret hanswer (Nat.le_max_left budget budget'),
      writtenSince_of_interpret hanswer' (Nat.le_max_right budget budget'), writtenSince_limited,
      after_unlimited, writtenSince_freely]
  · intro budget result final hanswer hsize
    exact limited_within hanswer hsize
  · intro n hn
    obtain ⟨k, hk, hbefore, hbeyond⟩ := Machine.exists_crossing hn
    obtain ⟨text, line, below, hwrites, hmore, hends⟩ := limited_beyond hbefore hbeyond
    exact ⟨k, hk, text, line, below, hwrites, hbefore, hmore, hends⟩
  · intro budget result final' hanswer
    by_cases hsize : ((state.start program).written setting budget).size ≤ capacity
    · exact .inl (limited_ends hanswer hsize)
    · exact .inr (Nat.lt_of_not_le hsize)

/-- Two texts of three and two bytes, and an assignment between them. With four bytes the second
text is cut, and what follows it is not assigned. -/
theorem full_sink_cuts_output_of_two_texts :
    let setting : Setting := ⟨.byName, some 1, fun _ _ _ => .ok .null⟩
    let program : List Stmt :=
      [.declare "a" (some (.literal (.string "x") 1)) 1, .print (.literal (.string "ab") 2) 2,
        .expression (.assign 0 "a" (.literal (.string "y") 3) 3) 3, .print (.variable 1 "a" 4) 4,
        .expression (.assign 2 "a" (.literal (.string "z") 5) 5) 5]
    let state := initial setting Registry.empty .unlimited
    ∃ final, state.interpret setting 30 program = some (.ok .completed, final) ∧
      (state.withSink (.ofRoom 5)).interpret setting 30 program =
        some (.ok .completed, final.withSink (.ofRoom 0)) ∧
      (∃ k < 30, ∃ text line below, Writes ((state.start program).after setting k) text line below ∧
        4 < (state.writtenSince ((state.start program).after setting k).state ++
          text.toUTF8).size) ∧
      ∃ cut, (state.withSink (.ofRoom 4)).interpret setting 30 program =
          some (.error ⟨.output Sink.fullDetails, 4⟩, cut) ∧
        state.writtenSince cut = (state.writtenSince final).extract 0 4 ∧
        (cut.scopes.local? cut.globals "a" matches some (.string "y")) = true := by
  intro setting program state
  have hfree : (state.interpret setting 30 program).map
      (fun answer => (answer.1, (state.writtenSince answer.2).size)) =
        some (.ok .completed, 5) := by
    decide +kernel
  obtain ⟨⟨result, final⟩, hanswer, hfinal⟩ := Option.map_eq_some_iff.mp hfree
  obtain ⟨rfl, hsize⟩ := Prod.mk.inj hfinal
  have hlimited : ((state.withSink (.ofRoom 4)).interpret setting 30 program).map
      (fun answer =>
        (answer.1, answer.2.scopes.local? answer.2.globals "a" matches some (.string "y"))) =
        some (.error ⟨.output Sink.fullDetails, 4⟩, true) := by
    decide +kernel
  obtain ⟨⟨result, cut⟩, hcut, hresult⟩ := Option.map_eq_some_iff.mp hlimited
  obtain ⟨rfl, hbound⟩ := Prod.mk.inj hresult
  obtain ⟨-, -, hwithin, -⟩ := full_sink_cuts_output setting state program 5
  obtain ⟨-, hbytes, -, hbeyond, -⟩ := full_sink_cuts_output setting state program 4
  have hpassed : 4 < (state.writtenSince ((state.start program).after setting 30).state).size := by
    rw [← writtenSince_of_interpret hanswer (Nat.le_refl 30), hsize]
    decide
  obtain ⟨k, hk, text, line, below, hwrites, -, htext, -⟩ := hbeyond 30 hpassed
  have hfits := hwithin 30 _ final hanswer (Nat.le_of_eq hsize)
  rw [hsize] at hfits
  exact ⟨final, hanswer, hfits, ⟨k, hk, text, line, below, hwrites, htext⟩, cut, hcut,
    hbytes 30 30 _ _ final cut hanswer hcut, hbound⟩

end Interpreter

end CommandScript
