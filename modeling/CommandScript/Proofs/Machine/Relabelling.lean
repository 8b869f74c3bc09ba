import CommandScript.Proofs.Machine.Constant
import CommandScript.Proofs.Machine.Course
import CommandScript.Proofs.Scope.Mapping
import CommandScript.Proofs.Syntax.Relabelling

/-!
# Machines with other ids and lines

A machine whose program and whose values have other labels takes the same steps, if its
table has under the new ids what the old table has under the old ones. Only the lines of
faults differ, and natives are taken to use lines for nothing else. What modules answer to a
command is left out; it changes nothing.

* `Machine.relabel`: a machine with other labels.
* `Relabelling.Carries`: a table for the new ids.
* `Setting.NativesCarry`: natives use labels for the lines of faults only.
* `Machine.relabel_step`, `Machine.relabel_after`: a step and a run with other labels.
-/

namespace CommandScript

open Std (HashMap)

/-- The table has under the new ids what the distances have under the old ones. -/
def Relabelling.Carries (r : Relabelling) (distances table : HashMap NodeId Nat) : Prop :=
  ∀ id, table[r.ids id]? = distances[id]?

/-! ## Values -/

namespace Value

def relabel (r : Relabelling) : Value → Value
  | .function decl closure identity => .function (decl.relabel r) closure identity
  | value => value

variable (r : Relabelling)

@[simp] theorem text_relabel (value : Value) : (value.relabel r).text = value.text := by
  cases value <;> rfl

@[simp] theorem truthy_relabel (value : Value) : (value.relabel r).truthy = value.truthy := by
  cases value <;> rfl

theorem keepsClosures_relabel : KeepsClosures (relabel r) := by
  intro value
  cases value <;> rfl

theorem relabel_ofLiteral (literal : Literal) :
    (ofLiteral literal).relabel r = ofLiteral literal := by
  cases literal <;> rfl

theorem relabel_of_closure?_eq_none {value : Value} (h : value.closure? = none) :
    value.relabel r = value := by
  cases value with
  | function decl closure identity => cases h
  | _ => rfl

end Value

/-! ## Effects and modules -/

/-- The same command for the same receiver, whatever it answers. -/
def Delivery.relabel (r : Relabelling) (delivery : Delivery) : Delivery where
  receiver := delivery.receiver
  command := delivery.command
  map := delivery.map.mapValues (Value.relabel r)
  reception := .accepted

def Effect.relabel (r : Relabelling) : Effect → Effect
  | .wrote bytes => .wrote bytes
  | .delivered delivery => .delivered (delivery.relabel r)

/-- The module, which accepts every command. -/
def CommandModule.agreeable (module : CommandModule) : CommandModule :=
  { module with receive := fun _ _ => .accepted }

namespace Registry

def agreeable (registry : Registry) : Registry :=
  ⟨registry.modules.map fun entry => (entry.1, entry.2.agreeable)⟩

variable (registry : Registry)

theorem accepting_agreeable (command : String) :
    registry.agreeable.accepting command =
      (registry.accepting command).map fun entry => (entry.1, entry.2.agreeable) := by
  rw [accepting, agreeable, List.filter_map, accepting]
  rfl

theorem offered_agreeable : registry.agreeable.offered = registry.offered := by
  rw [offered, agreeable, List.flatMap_map, offered]
  rfl

theorem help?_agreeable (command : String) :
    registry.agreeable.help? command = registry.help? command := by
  rw [help?, accepting_agreeable, List.findSome?_map, help?]
  rfl

theorem helpLine_agreeable (topic : Option String) :
    registry.agreeable.helpLine topic = registry.helpLine topic := by
  cases topic with
  | none => simp only [helpLine, offered_agreeable]
  | some topic => simp only [helpLine, help?_agreeable]

theorem deliver_agreeable (r : Relabelling) (command : String) (map : CommandMap) :
    registry.agreeable.deliver command (map.mapValues (Value.relabel r)) =
      (registry.deliver command map).map (Delivery.relabel r) := by
  rw [deliver, accepting_agreeable, deliver, List.map_map, List.map_map]
  rfl

end Registry

/-! ## Interpreters -/

namespace Interpreter

/-- The interpreter with other labels and the table for them. -/
def relabel (r : Relabelling) (table : HashMap NodeId Nat) (state : Interpreter) : Interpreter :=
  { state with
    scopes := state.scopes.mapValues (Value.relabel r)
    distances := table
    registry := state.registry.agreeable
    effects := state.effects.map (Effect.relabel r) }

section Accesses

variable {r : Relabelling} {table : HashMap NodeId Nat} {state : Interpreter}

theorem target?_relabel (h : r.Carries state.distances table) (rule : LookupRule) (id : NodeId)
    (name : String) :
    (state.relabel r table).target? rule (r.ids id) name = state.target? rule id name := by
  cases rule with
  | byName => exact state.scopes.nearest?_mapValues _ state.current name
  | resolved =>
    have hid : (state.relabel r table).distances[r.ids id]? = state.distances[id]? := h id
    simp only [target?, hid]
    simp only [relabel, Scopes.nearest?_mapValues, Scopes.ancestor?_mapValues,
      Scopes.local?_mapValues_isSome]

theorem lookUp?_relabel (h : r.Carries state.distances table) (rule : LookupRule) (id : NodeId)
    (name : String) :
    (state.relabel r table).lookUp? rule (r.ids id) name =
      (state.lookUp? rule id name).map (Value.relabel r) := by
  rw [lookUp?, target?_relabel h, lookUp?]
  cases state.target? rule id name with
  | none => rfl
  | some scope => exact state.scopes.local?_mapValues _ scope name

variable (state r table)

theorem relabel_define (id : ScopeId) (name : String) (value : Value) :
    (state.define id name value).relabel r table =
      (state.relabel r table).define id name (value.relabel r) := by
  simp only [define, relabel, Scopes.mapValues_define]

theorem relabel_bindAll (id : ScopeId) (names : List String) (values : List Value) :
    (state.bindAll id names values).relabel r table =
      (state.relabel r table).bindAll id names (values.map (Value.relabel r)) := by
  induction names generalizing state values with
  | nil => cases values <;> rfl
  | cons name names ih =>
    cases values with
    | nil => rfl
    | cons value values => rw [bindAll, ih, relabel_define, List.map_cons, bindAll]

theorem relabel_enter (parent : ScopeId) :
    (state.enter parent).relabel r table = (state.relabel r table).enter parent := by
  simp only [enter, relabel, Scopes.mapValues_add, Scopes.nextId_mapValues]

theorem relabel_trackCurrent :
    state.trackCurrent.relabel r table = (state.relabel r table).trackCurrent := by
  unfold trackCurrent
  split
  · rename_i h
    exact (if_pos h).symm
  · rename_i h
    exact (if_neg h).symm

theorem relabel_declareFunction (decl : FunctionDecl) :
    (state.declareFunction decl).relabel r table =
      (state.relabel r table).declareFunction (decl.relabel r) := by
  unfold declareFunction
  rw [relabel_define, ← relabel_trackCurrent]
  rfl

theorem relabel_collect (minimum : Nat) :
    (state.collect minimum).relabel r table = (state.relabel r table).collect minimum := by
  have hcollected := state.captured.collect_mapValues (Value.keepsClosures_relabel r) minimum
    state.scopes [state.globals, state.current]
  unfold collect
  dsimp only [relabel]
  rw [hcollected]

theorem relabel_collectIfDue (setting : Setting) :
    (state.collectIfDue setting).relabel r table =
      (state.relabel r table).collectIfDue setting := by
  unfold collectIfDue
  cases setting.collectFrom with
  | none => rfl
  | some minimum =>
    have hdue : (state.relabel r table).captured.isDue = state.captured.isDue := rfl
    dsimp only
    rw [hdue]
    split
    · exact state.relabel_collect r table minimum
    · rfl

theorem relabel_collectAtEnd (setting : Setting) :
    (state.collectAtEnd setting).relabel r table =
      (state.relabel r table).collectAtEnd setting := by
  unfold collectAtEnd
  cases setting.collectFrom with
  | none => rfl
  | some minimum =>
    have hhandles : (state.relabel r table).captured.handles = state.captured.handles := rfl
    dsimp only
    rw [hhandles]
    split
    · rfl
    · exact state.relabel_collect r table minimum

theorem relabel_write (text : String) :
    (state.write text).1.relabel r table = ((state.relabel r table).write text).1 ∧
      (state.write text).2 = ((state.relabel r table).write text).2 := by
  refine ⟨?_, rfl⟩
  simp only [write, relabel, Array.map_push]
  rfl

theorem relabel_help (topic : Option String) :
    (state.carryOut (.help topic)).1.relabel r table =
        ((state.relabel r table).carryOut (.help topic)).1 ∧
      (state.carryOut (.help topic)).2 =
        ((state.relabel r table).carryOut (.help topic)).2 := by
  have hline := state.registry.helpLine_agreeable topic
  refine ⟨?_, ?_⟩
  · simp only [carryOut, Registry.carryOut, relabel, hline, Array.map_append, List.map_toArray,
      List.map_cons, List.map_nil, Effect.relabel]
  · simp only [carryOut, Registry.carryOut, relabel, hline]

theorem relabel_run (command : String) (map : CommandMap) :
    (state.carryOut (.run command map)).1.relabel r table =
      ((state.relabel r table).carryOut (.run command (map.mapValues (Value.relabel r)))).1 := by
  simp only [carryOut, Registry.carryOut, relabel, Registry.deliver_agreeable, Array.map_append,
    List.map_toArray, List.map_map]
  rfl

end Accesses

end Interpreter

/-! ## Machines -/

def Halt.relabel (r : Relabelling) : Halt → Halt
  | .fault found => .fault (found.relabel r)
  | .exit code => .exit code

def OpenParameter.relabel (r : Relabelling) (parameter : OpenParameter) : OpenParameter where
  name := parameter.name
  values := parameter.values.map (Value.relabel r)
  rest := parameter.rest.map (·.relabel r)

def Gathering.relabel (r : Relabelling) (gathering : Gathering) : Gathering where
  word := gathering.word
  line := r.lines gathering.line
  map := gathering.map.mapValues (Value.relabel r)
  parameter := gathering.parameter.map (·.relabel r)
  rest := gathering.rest.map (·.relabel r)

def Control.relabel (r : Relabelling) : Control → Control
  | .eval expr => .eval (expr.relabel r)
  | .exec stmt => .exec (stmt.relabel r)
  | .gather gathering => .gather (gathering.relabel r)
  | .value held => .value (held.relabel r)
  | .done => .done
  | .returning held => .returning (held.relabel r)
  | .halting halt => .halting (halt.relabel r)

def Frame.relabel (r : Relabelling) : Frame → Frame
  | .unary op line => .unary op (r.lines line)
  | .left op operand line => .left op (operand.relabel r) (r.lines line)
  | .right op operand line => .right op (operand.relabel r) (r.lines line)
  | .logical op operand => .logical op (operand.relabel r)
  | .assign id name line => .assign (r.ids id) name (r.lines line)
  | .callee args line => .callee (args.map (·.relabel r)) (r.lines line)
  | .argument function before rest line =>
    .argument (function.relabel r) (before.map (Value.relabel r)) (rest.map (·.relabel r))
      (r.lines line)
  | .call => .call
  | .hostCall => .hostCall
  | .discard => .discard
  | .print line => .print (r.lines line)
  | .declare name => .declare name
  | .giveBack => .giveBack
  | .branch thenBranch elseBranch =>
    .branch (thenBranch.relabel r) (elseBranch.map (·.relabel r))
  | .loopTest condition body => .loopTest (condition.relabel r) (body.relabel r)
  | .loopBody condition body => .loopBody (condition.relabel r) (body.relabel r)
  | .gather gathering => .gather (gathering.relabel r)
  | .block rest outer => .block (Stmt.relabelAll r rest) outer
  | .program rest => .program (Stmt.relabelAll r rest)

/-- The answer of a native with other labels. -/
def relabelAnswer (r : Relabelling) :
    Except (Located RuntimeFault) Value → Except (Located RuntimeFault) Value
  | .ok value => .ok (value.relabel r)
  | .error fault => .error (fault.relabel r)

/-- A native uses the line of its call only to report a fault, and it cannot look into the
declaration of a function. -/
def Setting.NativesCarry (setting : Setting) (r : Relabelling) : Prop :=
  ∀ native args line,
    setting.native native (args.map (Value.relabel r)) (r.lines line) =
      relabelAnswer r (setting.native native args line)

namespace Machine

def relabel (r : Relabelling) (table : HashMap NodeId Nat) (machine : Machine) : Machine where
  control := machine.control.relabel r
  frames := machine.frames.map (Frame.relabel r)
  state := machine.state.relabel r table

/-! ## Operations and calls -/

section Operations

variable (r : Relabelling)

theorem unary_relabel (op : UnaryOp) (value : Value) :
    op.apply (value.relabel r) = (op.apply value).map (Value.relabel r) := by
  cases op <;> cases value <;> rfl

theorem binary_relabel (op : BinaryOp) (left right : Value) :
    op.apply (left.relabel r) (right.relabel r) =
      (op.apply left right).map (Value.relabel r) := by
  cases op <;> cases left <;> cases right <;> rfl

end Operations

section Steps

variable {setting : Setting} {r : Relabelling} {table : HashMap NodeId Nat} {frames : List Frame}
  {state : Interpreter}

theorem relabel_deliver (outcome : Except RuntimeFault Value) (line : Nat) :
    (deliver outcome line frames state).relabel r table =
      deliver (outcome.map (Value.relabel r)) (r.lines line) (frames.map (Frame.relabel r))
        (state.relabel r table) := by
  cases outcome <;> rfl

theorem relabel_answer (outcome : Except (Located RuntimeFault) Value) :
    (answer outcome frames state).relabel r table =
      answer (relabelAnswer r outcome) (frames.map (Frame.relabel r)) (state.relabel r table) := by
  cases outcome <;> rfl

theorem relabel_enterBody (decl : FunctionDecl) (closure : ScopeId) (args : List Value) :
    (enterBody decl closure args frames state).relabel r table =
      enterBody (decl.relabel r) closure (args.map (Value.relabel r))
        (frames.map (Frame.relabel r)) (state.relabel r table) := by
  have hentered := state.relabel_enter r table closure
  have hcurrent : ((state.relabel r table).enter closure).current =
      (state.enter closure).current :=
    state.scopes.nextId_mapValues _
  have hbound := (state.enter closure).relabel_bindAll r table (state.enter closure).current
    decl.params args
  rw [hentered, ← hcurrent] at hbound
  simp only [enterBody, relabel, ← hcurrent, hbound]
  rfl

theorem relabel_call (hnative : setting.NativesCarry r) (callee : Value) (args : List Value)
    (line : Nat) :
    (call setting callee args line frames state).relabel r table =
      call setting (callee.relabel r) (args.map (Value.relabel r)) (r.lines line)
        (frames.map (Frame.relabel r)) (state.relabel r table) := by
  have hlength : (args.map (Value.relabel r)).length = args.length := List.length_map _
  have hdepth : (state.relabel r table).callDepth = state.callDepth := rfl
  cases callee with
  | function decl closure identity =>
    have hparams : (decl.relabel r).params = decl.params := rfl
    simp only [call, Value.relabel, hlength, hparams, hdepth]
    split
    · rfl
    · split
      · rfl
      · exact relabel_enterBody decl closure args
  | native native identity =>
    simp only [call, Value.relabel, hlength, hdepth]
    split
    · rfl
    · split
      · rfl
      · rw [relabel_answer]
        exact congrArg (answer · _ _) (hnative native args line).symm
  | null | bool | number | string => rfl

theorem relabel_nextArgument (hnative : setting.NativesCarry r) (callee : Value)
    (before : List Value) (rest : List Expr) (line : Nat) :
    (nextArgument setting callee before rest line frames state).relabel r table =
      nextArgument setting (callee.relabel r) (before.map (Value.relabel r))
        (rest.map (·.relabel r)) (r.lines line) (frames.map (Frame.relabel r))
        (state.relabel r table) := by
  cases rest with
  | nil =>
    have hcall := @relabel_call setting r table frames state hnative callee before.reverse line
    rw [List.map_reverse] at hcall
    exact hcall
  | cons arg more => rfl

/-! ## Steps -/

theorem relabel_stepEval (h : r.Carries state.distances table) (expr : Expr) :
    (stepEval setting expr frames state).relabel r table =
      stepEval setting (expr.relabel r) (frames.map (Frame.relabel r))
        (state.relabel r table) := by
  cases expr with
  | literal value line =>
    have hvalue := Value.relabel_ofLiteral r value
    simp only [stepEval, Expr.relabel, relabel, Control.relabel, hvalue]
  | «variable» id name line =>
    have hread := Interpreter.lookUp?_relabel h setting.lookup id name
    simp only [stepEval, Expr.relabel, hread]
    cases state.lookUp? setting.lookup id name <;> rfl
  | call callee args line =>
    simp only [stepEval, Expr.relabel, relabel, Expr.relabelAll_eq]
    rfl
  | grouping | unary | binary | logical | assign | commandRef => rfl

theorem relabel_stepExec (stmt : Stmt) :
    (stepExec stmt frames state).relabel r table =
      stepExec (stmt.relabel r) (frames.map (Frame.relabel r)) (state.relabel r table) := by
  cases stmt with
  | block body =>
    have hentered := state.relabel_enter r table state.current
    simp only [stepExec, Stmt.relabel, relabel, hentered]
    rfl
  | branch condition thenBranch elseBranch line =>
    cases elseBranch <;> rfl
  | «return» value line =>
    cases value <;> rfl
  | declare name initializer line =>
    cases initializer with
    | some value => rfl
    | none =>
      have hdefined := state.relabel_define r table state.current name .null
      simp only [stepExec, Stmt.relabel, Option.map_none, relabel, hdefined]
      rfl
  | function name params body line =>
    have hdeclared :=
      state.relabel_declareFunction r table ⟨name, params.map Parameter.name, body⟩
    simp only [stepExec, Stmt.relabel, relabel, hdeclared, Parameter.map_name_relabel]
    rfl
  | command action =>
    cases action with
    | deliver word args line => rfl
    | exit line => rfl
    | help topic line =>
      obtain ⟨hstate, hstatus⟩ := state.relabel_help r table topic
      simp only [stepExec, Stmt.relabel, Command.relabel]
      revert hstate hstatus
      generalize state.carryOut (.help topic) = carried
      generalize (state.relabel r table).carryOut (.help topic) = carried'
      obtain ⟨_, status⟩ := carried
      obtain ⟨_, status'⟩ := carried'
      rintro rfl (rfl : status = status')
      cases status <;> rfl
  | expression | loop | print => rfl

theorem relabel_stepGather (gathering : Gathering) :
    (stepGather gathering frames state).relabel r table =
      stepGather (gathering.relabel r) (frames.map (Frame.relabel r))
        (state.relabel r table) := by
  obtain ⟨word, line, map, parameter, rest⟩ := gathering
  cases parameter with
  | some parameter =>
    obtain ⟨name, values, pending⟩ := parameter
    match pending with
    | [] =>
      have hmap := map.mapValues_append (Value.relabel r) name values
      simp only [stepGather, relabel, Control.relabel, Gathering.relabel, OpenParameter.relabel,
        CommandMap.extendParameter, hmap, Option.map_some, Option.map_none, List.map_nil]
    | .word text :: more =>
      simp only [stepGather, relabel, Control.relabel, Gathering.relabel, OpenParameter.relabel,
        Option.map_some, List.map_append]
      rfl
    | .expr expr :: more => rfl
  | none =>
    match rest with
    | [] =>
      have hrun := state.relabel_run r table word map
      simp only [stepGather, relabel, Control.relabel, Gathering.relabel, hrun, Option.map_none,
        List.map_nil]
    | .flag name :: more =>
      have hmap := map.mapValues_append (Value.relabel r) CommandMap.flagsKey [.string name]
      simp only [stepGather, relabel, Control.relabel, Gathering.relabel, CommandMap.pushFlag,
        hmap]
      rfl
    | .positional (.word text) :: more =>
      have hmap := map.mapValues_append (Value.relabel r) CommandMap.argumentsKey [.string text]
      simp only [stepGather, relabel, Control.relabel, Gathering.relabel,
        CommandMap.pushArgument, hmap]
      rfl
    | .positional (.expr expr) :: more => rfl
    | .parameter name values :: more => rfl

theorem relabel_receive (r : Relabelling) (gathering : Gathering) (value : Value) :
    (Gathering.receive gathering value).relabel r =
      Gathering.receive (gathering.relabel r) (value.relabel r) := by
  obtain ⟨word, line, map, parameter, rest⟩ := gathering
  cases parameter with
  | none =>
    have hmap := map.mapValues_append (Value.relabel r) CommandMap.argumentsKey [value]
    simp only [Gathering.receive, Gathering.relabel, CommandMap.pushArgument, hmap]
    rfl
  | some parameter =>
    simp only [Gathering.receive, Gathering.relabel, OpenParameter.relabel, Option.map_some,
      List.map_append]
    rfl

theorem relabel_stepValue (hnative : setting.NativesCarry r)
    (h : r.Carries state.distances table) (value : Value) (frame : Frame) :
    (stepValue setting value frame frames state).relabel r table =
      stepValue setting (value.relabel r) (frame.relabel r) (frames.map (Frame.relabel r))
        (state.relabel r table) := by
  cases frame with
  | unary op line =>
    rw [stepValue, relabel_deliver, ← unary_relabel]
    rfl
  | right op left line =>
    rw [stepValue, relabel_deliver, ← binary_relabel]
    rfl
  | logical op right =>
    have hdecides : op.decides (value.relabel r) = op.decides value := by
      cases op <;> simp only [LogicalOp.decides, Value.truthy_relabel]
    simp only [stepValue, Frame.relabel, hdecides]
    split <;> rfl
  | assign id name line =>
    have htarget := Interpreter.target?_relabel h setting.lookup id name
    simp only [stepValue, Frame.relabel, htarget]
    cases htarget' : state.target? setting.lookup id name with
    | none => rfl
    | some scope =>
      have hdefined := state.relabel_define r table scope name value
      simp only [relabel, hdefined]
      rfl
  | callee args line => exact relabel_nextArgument hnative value [] args line
  | argument callee before rest line =>
    exact relabel_nextArgument hnative callee (value :: before) rest line
  | print line =>
    obtain ⟨hstate, hcomplete⟩ := state.relabel_write r table (value.text ++ "\n")
    simp only [stepValue, Frame.relabel, Value.text_relabel]
    revert hstate hcomplete
    generalize state.write (value.text ++ "\n") = written
    generalize (state.relabel r table).write (value.text ++ "\n") = written'
    obtain ⟨_, complete⟩ := written
    obtain ⟨_, complete'⟩ := written'
    rintro rfl (rfl : complete = complete')
    cases complete <;> rfl
  | declare name =>
    have hdefined := state.relabel_define r table state.current name value
    simp only [stepValue, relabel, hdefined]
    rfl
  | branch thenBranch elseBranch =>
    simp only [stepValue, Frame.relabel, Value.truthy_relabel]
    split
    · rfl
    · cases elseBranch <;> rfl
  | loopTest condition body =>
    simp only [stepValue, Frame.relabel, Value.truthy_relabel]
    split <;> rfl
  | gather gathering =>
    have hreceived := relabel_receive r gathering value
    simp only [stepValue, relabel, Control.relabel, hreceived]
    rfl
  | left | discard | giveBack | call | hostCall | loopBody | block | program => rfl

theorem relabel_stepDone (frame : Frame) :
    (stepDone setting frame frames state).relabel r table =
      stepDone setting (frame.relabel r) (frames.map (Frame.relabel r))
        (state.relabel r table) := by
  have hcollected := state.relabel_collectIfDue r table setting
  cases frame with
  | block rest outer => cases rest <;> rfl
  | program rest =>
    cases rest <;> simp only [stepDone, relabel, hcollected] <;> rfl
  | _ => rfl

theorem relabel_stepReturning (value : Value) (frame : Frame) :
    (stepReturning value frame frames state).relabel r table =
      stepReturning (value.relabel r) (frame.relabel r) (frames.map (Frame.relabel r))
        (state.relabel r table) := by
  cases frame <;> rfl

theorem relabel_stepHalting (halt : Halt) (frame : Frame) :
    (stepHalting halt frame frames state).relabel r table =
      stepHalting (halt.relabel r) (frame.relabel r) (frames.map (Frame.relabel r))
        (state.relabel r table) := by
  cases frame <;> rfl

end Steps

section Runs

variable {setting : Setting} {r : Relabelling} {table : HashMap NodeId Nat}
  (hnative : setting.NativesCarry r)

include hnative

theorem relabel_step (machine : Machine) (h : r.Carries machine.state.distances table) :
    (machine.step setting).relabel r table = (machine.relabel r table).step setting := by
  obtain ⟨control, frames, state⟩ := machine
  cases control with
  | eval expr => exact relabel_stepEval h expr
  | exec stmt => exact relabel_stepExec stmt
  | gather gathering => exact relabel_stepGather gathering
  | value value =>
    cases frames with
    | nil => rfl
    | cons frame rest => exact relabel_stepValue hnative h value frame
  | done =>
    cases frames with
    | nil => rfl
    | cons frame rest => exact relabel_stepDone frame
  | returning value =>
    cases frames with
    | nil => rfl
    | cons frame rest => exact relabel_stepReturning value frame
  | halting halt =>
    cases frames with
    | nil => rfl
    | cons frame rest => exact relabel_stepHalting halt frame

theorem relabel_after (machine : Machine) (h : r.Carries machine.state.distances table) (n : Nat) :
    (machine.after setting n).relabel r table = (machine.relabel r table).after setting n := by
  induction n generalizing machine with
  | zero => rfl
  | succ n ih =>
    have hnext : r.Carries (machine.step setting).state.distances table := by
      rw [(conserves_step setting machine).distances]
      exact h
    rw [after, ih _ hnext, relabel_step hnative machine h, after]

end Runs

theorem atRest_relabel (r : Relabelling) (table : HashMap NodeId Nat) (machine : Machine) :
    (machine.relabel r table).atRest = machine.atRest := by
  obtain ⟨control, frames, state⟩ := machine
  cases control <;> cases frames <;> rfl

end Machine

theorem Interpreter.relabel_start (r : Relabelling) (table : HashMap NodeId Nat)
    (state : Interpreter) (program : List Stmt) :
    (state.start program).relabel r table =
      (state.relabel r table).start (Stmt.relabelAll r program) := by
  cases program <;> rfl

end CommandScript
