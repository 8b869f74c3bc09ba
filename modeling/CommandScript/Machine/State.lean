import CommandScript.Command.Distribution
import CommandScript.Scope.Collection
import CommandScript.Machine.Operation
import Std.Data.HashMap

/-!
# The state of an interpreter

What an interpreter keeps from one input to the next, and the single accesses to it that
programs make.

A setting fixes what the rules of evaluation leave open: how references find their scope,
when tracked scopes are collected, and what the natives of the host do.

* `Interpreter`: the store of scopes, the current scope, the distances of resolved
  references, the modules, the output and the effects so far.
* `Interpreter.target?`: the scope that a reference means, if it binds the name.
* `Interpreter.write`: writes a text to the output.
* `Interpreter.collect`: severs the tracked scopes that are out of reach.
-/

namespace CommandScript

/-- How a reference finds its scope: at the distance that resolution recorded, and in the
global scope when it recorded none; or always by name along the chain of scopes. -/
inductive LookupRule where
  | resolved
  | byName
  deriving DecidableEq

structure Setting where
  lookup : LookupRule
  /-- The least number of tracked scopes that makes a collection due while a program
  runs; without it nothing is ever collected. -/
  collectFrom : Option Nat
  /-- What a native answers to its arguments when it is called on a line. -/
  native : Native → List Value → (line : Nat) → Except (Located RuntimeFault) Value

/-- Tracked scopes are collected once there are this many. -/
def usualCollectFrom : Nat := 256

/-- At most this many calls are in progress at a time. -/
def maxCallDepth : Nat := 4096

structure Interpreter where
  globals : ScopeId
  current : ScopeId
  callDepth : Nat
  scopes : Scopes
  captured : Captured
  distances : Std.HashMap NodeId Nat
  registry : Registry
  sink : Sink
  nextIdentity : Nat
  effects : Array Effect

namespace Interpreter

/-! ## Names -/

/-- Binds a name in a scope. -/
def define (state : Interpreter) (id : ScopeId) (name : String) (value : Value) : Interpreter :=
  { state with scopes := state.scopes.define id name value }

/-- The scope that a reference means, provided that it binds the name. -/
def target? (rule : LookupRule) (state : Interpreter) (id : NodeId) (name : String) :
    Option ScopeId :=
  match rule with
  | .byName => state.scopes.nearest? state.current name
  | .resolved =>
    match state.distances[id]? with
    | some distance =>
      (state.scopes.ancestor? state.current distance).filter fun scope =>
        (state.scopes.local? scope name).isSome
    | none => state.scopes.nearest? state.globals name

/-- The value of a reference. -/
def lookUp? (rule : LookupRule) (state : Interpreter) (id : NodeId) (name : String) :
    Option Value :=
  (state.target? rule id name).bind fun scope => state.scopes.local? scope name

/-- Makes the references of a program known. -/
def addDistances (state : Interpreter) (distances : List (NodeId × Nat)) : Interpreter :=
  { state with distances := state.distances.insertMany distances }

/-! ## Scopes -/

/-- Opens a new scope inside `parent` and makes it the current one. -/
def enter (state : Interpreter) (parent : ScopeId) : Interpreter :=
  { state with current := state.scopes.nextId, scopes := state.scopes.add (some parent) }

/-- Binds parameters to arguments by position; what has no counterpart is left out. -/
def bindAll (state : Interpreter) (id : ScopeId) : List String → List Value → Interpreter
  | name :: names, value :: values => (state.define id name value).bindAll id names values
  | _, _ => state

/-- Tracks the current scope, unless it is the global one. -/
def trackCurrent (state : Interpreter) : Interpreter :=
  if state.current = state.globals then state
  else { state with captured := state.captured.track state.current }

/-- Uses up the identity of one function value. -/
def advanceIdentity (state : Interpreter) : Interpreter :=
  { state with nextIdentity := state.nextIdentity + 1 }

/-- Declares a function in the current scope. The scope is tracked, because the function
that it binds keeps it. -/
def declareFunction (state : Interpreter) (decl : FunctionDecl) : Interpreter :=
  let current := state.current
  let value := Value.function decl current state.nextIdentity
  state.trackCurrent.advanceIdentity.define current decl.name value

/-- Severs the tracked scopes that neither the globals nor the current scope reach. -/
def collect (minimum : Nat) (state : Interpreter) : Interpreter :=
  let collected := state.captured.collect minimum state.scopes [state.globals, state.current]
  { state with scopes := collected.scopes, captured := collected.captured }

/-- Collects if the setting allows it and enough scopes are tracked. -/
def collectIfDue (setting : Setting) (state : Interpreter) : Interpreter :=
  match setting.collectFrom with
  | some minimum => if state.captured.isDue then state.collect minimum else state
  | none => state

/-! ## Effects -/

/-- Writes a text to the output and says whether all of it was taken. -/
def write (state : Interpreter) (text : String) : Interpreter × Bool :=
  let written := state.sink.write text
  ({ state with sink := written.sink, effects := state.effects.push (.wrote written.bytes) },
    written.complete)

/-- Carries out a request of a command. -/
def carryOut (state : Interpreter) (request : Request) : Interpreter × Option Status :=
  let carried := state.registry.carryOut state.sink request
  ({ state with sink := carried.sink, effects := state.effects ++ carried.effects.toArray },
    carried.status)

/-- The native that every interpreter starts with. -/
def clock : Native := ⟨"clock", 0⟩

/-- Binds a native in a scope, as a new function value. -/
def installNative (state : Interpreter) (id : ScopeId) (native : Native) : Interpreter :=
  let value := Value.native native state.nextIdentity
  state.advanceIdentity.define id native.name value

/-- An interpreter that has not run anything yet. -/
def initial (setting : Setting) (registry : Registry) (sink : Sink) : Interpreter :=
  let blank : Interpreter :=
    { globals := 0
      current := 0
      callDepth := 0
      scopes := Scopes.empty.add none
      captured := Captured.ofLimit (setting.collectFrom.getD 0)
      distances := ∅
      registry := registry
      sink := sink
      nextIdentity := 0
      effects := #[] }
  blank.installNative 0 clock

end Interpreter

end CommandScript
