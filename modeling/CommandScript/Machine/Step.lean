import CommandScript.Machine.State

/-!
# The abstract machine

Programs run on a machine that takes one small step at a time. Its control says what
happens next: an expression or statement is to be carried out, a value or the end of a
statement is handed to what waits for it, or a `return`, fault or exit is on its way out.
What waits is a stack of frames, innermost first. Every frame that changed the current
scope or the call depth undoes the change when it is left, whichever way it is left.

No step recurses, so the depth of a program costs no depth of the host.

* `Frame`: what waits for a value, or for the end of a statement.
* `Machine.step`: the next step; a machine without frames and with nothing to do is at
  rest and stays as it is.
-/

namespace CommandScript

/-- What stops a program before its end. -/
inductive Halt where
  | fault (fault : Located RuntimeFault)
  | exit (code : Nat)
  deriving DecidableEq

/-- A parameter whose values are being evaluated. -/
structure OpenParameter where
  name : String
  values : List Value
  rest : List ArgValue

/-- A command whose arguments are being evaluated, from left to right. -/
structure Gathering where
  word : String
  line : Nat
  map : CommandMap
  parameter : Option OpenParameter
  rest : List Arg

inductive Control where
  | eval (expr : Expr)
  | exec (stmt : Stmt)
  | gather (gathering : Gathering)
  | value (value : Value)
  | done
  | returning (value : Value)
  | halting (halt : Halt)

inductive Frame where
  /-- Waits for the operand. -/
  | unary (op : UnaryOp) (line : Nat)
  /-- Waits for the left operand. -/
  | left (op : BinaryOp) (right : Expr) (line : Nat)
  /-- Waits for the right operand. -/
  | right (op : BinaryOp) (left : Value) (line : Nat)
  /-- Waits for the left operand of `and` or `or`. -/
  | logical (op : LogicalOp) (right : Expr)
  /-- Waits for the value to be assigned. -/
  | assign (id : NodeId) (name : String) (line : Nat)
  /-- Waits for the function to be called. -/
  | callee (args : List Expr) (line : Nat)
  /-- Waits for an argument; those before it are kept in reverse order. -/
  | argument (callee : Value) (before : List Value) (rest : List Expr) (line : Nat)
  /-- Waits for the end of a called body, one level of calls deeper. -/
  | call
  /-- Waits for the end of a body that the host called. -/
  | hostCall
  /-- Waits for the value of an expression statement. -/
  | discard
  /-- Waits for the value to be printed. -/
  | print (line : Nat)
  /-- Waits for the initial value of a variable. -/
  | declare (name : String)
  /-- Waits for the value to be returned. -/
  | giveBack
  /-- Waits for the condition of a branch. -/
  | branch (thenBranch : Stmt) (elseBranch : Option Stmt)
  /-- Waits for the condition of a loop. -/
  | loopTest (condition : Expr) (body : Stmt)
  /-- Waits for the end of a loop's body. -/
  | loopBody (condition : Expr) (body : Stmt)
  /-- Waits for the value of an argument of a command. -/
  | gather (gathering : Gathering)
  /-- Waits for the end of a statement in a block that was entered from scope `outer`. -/
  | block (rest : List Stmt) (outer : ScopeId)
  /-- Waits for the end of a statement of the program itself. -/
  | program (rest : List Stmt)

structure Machine where
  control : Control
  frames : List Frame
  state : Interpreter

namespace Machine

def raise (fault : RuntimeFault) (line : Nat) (frames : List Frame) (state : Interpreter) :
    Machine :=
  ⟨.halting (.fault ⟨fault, line⟩), frames, state⟩

/-- Hands on the outcome of an operation. -/
def deliver (outcome : Except RuntimeFault Value) (line : Nat) (frames : List Frame)
    (state : Interpreter) : Machine :=
  match outcome with
  | .ok value => ⟨.value value, frames, state⟩
  | .error fault => raise fault line frames state

/-! ## Calls -/

/-- Starts the body of a function in a new scope that binds its parameters. -/
def enterBody (decl : FunctionDecl) (closure : ScopeId) (args : List Value)
    (frames : List Frame) (state : Interpreter) : Machine :=
  let outer := state.current
  let entered := state.enter closure
  ⟨.done, .block decl.body outer :: frames, entered.bindAll entered.current decl.params args⟩

/-- Hands on the answer of a native. -/
def answer (outcome : Except (Located RuntimeFault) Value) (frames : List Frame)
    (state : Interpreter) : Machine :=
  match outcome with
  | .ok value => ⟨.value value, frames, state⟩
  | .error fault => ⟨.halting (.fault fault), frames, state⟩

/-- Calls a function value with as many arguments as it takes, unless too many calls are
in progress. -/
def call (setting : Setting) (callee : Value) (args : List Value) (line : Nat)
    (frames : List Frame) (state : Interpreter) : Machine :=
  match callee with
  | .function decl closure _ =>
    if args.length ≠ decl.params.length then
      raise (.arityMismatch decl.params.length args.length) line frames state
    else if maxCallDepth ≤ state.callDepth then raise .stackOverflow line frames state
    else
      enterBody decl closure args (.call :: frames)
        { state with callDepth := state.callDepth + 1 }
  | .native native _ =>
    if args.length ≠ native.arity then
      raise (.arityMismatch native.arity args.length) line frames state
    else if maxCallDepth ≤ state.callDepth then raise .stackOverflow line frames state
    else answer (setting.native native args line) frames state
  | _ => raise .notCallable line frames state

/-- Goes on with the arguments of a call, the earlier ones kept in reverse order. -/
def nextArgument (setting : Setting) (callee : Value) (before : List Value) (rest : List Expr)
    (line : Nat) (frames : List Frame) (state : Interpreter) : Machine :=
  match rest with
  | [] => call setting callee before.reverse line frames state
  | arg :: more => ⟨.eval arg, .argument callee before more line :: frames, state⟩

/-! ## The steps by control -/

def stepEval (setting : Setting) (expr : Expr) (frames : List Frame) (state : Interpreter) :
    Machine :=
  match expr with
  | .literal value _ => ⟨.value (.ofLiteral value), frames, state⟩
  | .grouping inner _ => ⟨.eval inner, frames, state⟩
  | .unary op operand line => ⟨.eval operand, .unary op line :: frames, state⟩
  | .binary op left right line => ⟨.eval left, .left op right line :: frames, state⟩
  | .logical op left right _ => ⟨.eval left, .logical op right :: frames, state⟩
  | .variable id name line =>
    match state.lookUp? setting.lookup id name with
    | some value => ⟨.value value, frames, state⟩
    | none => raise (.undefinedVariable name) line frames state
  | .assign id name value line => ⟨.eval value, .assign id name line :: frames, state⟩
  | .call callee args line => ⟨.eval callee, .callee args line :: frames, state⟩
  | .commandRef name _ => ⟨.value (.string (Text.lowered name)), frames, state⟩

def stepExec (stmt : Stmt) (frames : List Frame) (state : Interpreter) : Machine :=
  match stmt with
  | .block body => ⟨.done, .block body state.current :: frames, state.enter state.current⟩
  | .expression expr _ => ⟨.eval expr, .discard :: frames, state⟩
  | .branch condition thenBranch elseBranch _ =>
    ⟨.eval condition, .branch thenBranch elseBranch :: frames, state⟩
  | .loop condition body _ => ⟨.eval condition, .loopTest condition body :: frames, state⟩
  | .print expr line => ⟨.eval expr, .print line :: frames, state⟩
  | .return (some value) _ => ⟨.eval value, .giveBack :: frames, state⟩
  | .return none _ => ⟨.returning .null, frames, state⟩
  | .declare name (some initializer) _ => ⟨.eval initializer, .declare name :: frames, state⟩
  | .declare name none _ => ⟨.done, frames, state.define state.current name .null⟩
  | .function name params body _ =>
    ⟨.done, frames, state.declareFunction ⟨name, params.map Parameter.name, body⟩⟩
  | .command (.deliver word args line) =>
    ⟨.gather ⟨word, line, .empty, none, args⟩, frames, state⟩
  | .command (.help topic line) =>
    match state.carryOut (.help topic) with
    | (state, some _) => ⟨.done, frames, state⟩
    | (state, none) => raise (.output Sink.fullDetails) line frames state
  | .command (.exit _) => ⟨.halting (.exit 0), frames, state⟩

def stepGather (gathering : Gathering) (frames : List Frame) (state : Interpreter) : Machine :=
  match gathering with
  | ⟨word, line, map, some parameter, rest⟩ =>
    match parameter.rest with
    | [] =>
      ⟨.gather ⟨word, line, map.extendParameter parameter.name parameter.values, none, rest⟩,
        frames, state⟩
    | .word text :: more =>
      let values := parameter.values ++ [.string text]
      ⟨.gather ⟨word, line, map, some ⟨parameter.name, values, more⟩, rest⟩, frames, state⟩
    | .expr expr :: more =>
      let waiting := ⟨word, line, map, some ⟨parameter.name, parameter.values, more⟩, rest⟩
      ⟨.eval expr, .gather waiting :: frames, state⟩
  | ⟨word, line, map, none, rest⟩ =>
    match rest with
    | [] => ⟨.done, frames, (state.carryOut (.run word map)).1⟩
    | .flag name :: more => ⟨.gather ⟨word, line, map.pushFlag name, none, more⟩, frames, state⟩
    | .positional (.word text) :: more =>
      ⟨.gather ⟨word, line, map.pushArgument (.string text), none, more⟩, frames, state⟩
    | .positional (.expr expr) :: more =>
      ⟨.eval expr, .gather ⟨word, line, map, none, more⟩ :: frames, state⟩
    | .parameter name values :: more =>
      ⟨.gather ⟨word, line, map, some ⟨name, [], values⟩, more⟩, frames, state⟩

/-- The value of an argument joins the command that waits for it. -/
def Gathering.receive (gathering : Gathering) (value : Value) : Gathering :=
  match gathering.parameter with
  | some parameter =>
    { gathering with
      parameter := some { parameter with values := parameter.values ++ [value] } }
  | none => { gathering with map := gathering.map.pushArgument value }

/-- A value reaches the frame that waits for it. A frame that waits for the end of a
statement takes the value as that end. -/
def stepValue (setting : Setting) (value : Value) (frame : Frame) (frames : List Frame)
    (state : Interpreter) : Machine :=
  match frame with
  | .unary op line => deliver (op.apply value) line frames state
  | .left op right line => ⟨.eval right, .right op value line :: frames, state⟩
  | .right op left line => deliver (op.apply left value) line frames state
  | .logical op right =>
    if op.decides value then ⟨.value value, frames, state⟩ else ⟨.eval right, frames, state⟩
  | .assign id name line =>
    match state.target? setting.lookup id name with
    | some scope => ⟨.value value, frames, state.define scope name value⟩
    | none => raise (.undefinedVariable name) line frames state
  | .callee args line => nextArgument setting value [] args line frames state
  | .argument callee before rest line =>
    nextArgument setting callee (value :: before) rest line frames state
  | .discard => ⟨.done, frames, state⟩
  | .print line =>
    match state.write (value.text ++ "\n") with
    | (state, true) => ⟨.done, frames, state⟩
    | (state, false) => raise (.output Sink.fullDetails) line frames state
  | .declare name => ⟨.done, frames, state.define state.current name value⟩
  | .giveBack => ⟨.returning value, frames, state⟩
  | .branch thenBranch elseBranch =>
    if value.truthy then ⟨.exec thenBranch, frames, state⟩
    else
      match elseBranch with
      | some stmt => ⟨.exec stmt, frames, state⟩
      | none => ⟨.done, frames, state⟩
  | .loopTest condition body =>
    if value.truthy then ⟨.exec body, .loopBody condition body :: frames, state⟩
    else ⟨.done, frames, state⟩
  | .gather gathering => ⟨.gather (Gathering.receive gathering value), frames, state⟩
  | frame => ⟨.done, frame :: frames, state⟩

/-- The end of a statement reaches the frame that waits for it. -/
def stepDone (setting : Setting) (frame : Frame) (frames : List Frame) (state : Interpreter) :
    Machine :=
  match frame with
  | .loopBody condition body =>
    ⟨.eval condition, .loopTest condition body :: frames, state⟩
  | .block (stmt :: rest) outer => ⟨.exec stmt, .block rest outer :: frames, state⟩
  | .block [] outer => ⟨.done, frames, { state with current := outer }⟩
  | .call => ⟨.value .null, frames, { state with callDepth := state.callDepth - 1 }⟩
  | .hostCall => ⟨.value .null, frames, state⟩
  | .program [] => ⟨.done, frames, state.collectIfDue setting⟩
  | .program (stmt :: rest) =>
    ⟨.exec stmt, .program rest :: frames, state.collectIfDue setting⟩
  | _ => ⟨.done, frames, state⟩

/-- A returned value ends blocks and loops up to the call that it belongs to. At the top of
a program it ends the statement it comes from. -/
def stepReturning (value : Value) (frame : Frame) (frames : List Frame)
    (state : Interpreter) : Machine :=
  match frame with
  | .block _ outer => ⟨.returning value, frames, { state with current := outer }⟩
  | .call => ⟨.value value, frames, { state with callDepth := state.callDepth - 1 }⟩
  | .hostCall => ⟨.value value, frames, state⟩
  | .program rest => ⟨.done, .program rest :: frames, state⟩
  | _ => ⟨.returning value, frames, state⟩

/-- A fault or exit ends everything. -/
def stepHalting (halt : Halt) (frame : Frame) (frames : List Frame) (state : Interpreter) :
    Machine :=
  match frame with
  | .block _ outer => ⟨.halting halt, frames, { state with current := outer }⟩
  | .call => ⟨.halting halt, frames, { state with callDepth := state.callDepth - 1 }⟩
  | _ => ⟨.halting halt, frames, state⟩

/-- Whether nothing is left to do. -/
def atRest (machine : Machine) : Bool :=
  match machine.control, machine.frames with
  | .eval _, _ => false
  | .exec _, _ => false
  | .gather _, _ => false
  | _, frames => frames.isEmpty

/-- The next step; a machine at rest stays as it is. -/
def step (setting : Setting) : Machine → Machine
  | ⟨.eval expr, frames, state⟩ => stepEval setting expr frames state
  | ⟨.exec stmt, frames, state⟩ => stepExec stmt frames state
  | ⟨.gather gathering, frames, state⟩ => stepGather gathering frames state
  | ⟨.value value, frame :: frames, state⟩ => stepValue setting value frame frames state
  | ⟨.done, frame :: frames, state⟩ => stepDone setting frame frames state
  | ⟨.returning value, frame :: frames, state⟩ => stepReturning value frame frames state
  | ⟨.halting halt, frame :: frames, state⟩ => stepHalting halt frame frames state
  | ⟨control, [], state⟩ => ⟨control, [], state⟩

end Machine

end CommandScript
