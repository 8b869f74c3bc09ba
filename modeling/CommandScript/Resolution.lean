import CommandScript.Fault
import CommandScript.Syntax

/-!
# Resolution of names

Before a program runs, every reference to a name is bound to the scope that declares it:
the number of scopes opened between the reference and the innermost scope that has
declared the name so far. The top level, every block, and the parameters of a function
together with its body are scopes. A name that no scope has declared is left alone.

A scope may declare a name once. While the initializer of a variable is read, the name is
declared but not ready, and reading it there is a fault. A `return` belongs inside a
function.

* `StaticScope`: the names that a scope has declared so far.
* `distance?`: the number of scopes between a reference and its declaration.
* `resolve`: the distances of a program's references, or its faults.
-/

namespace CommandScript

/-- A name of a scope; it is not ready while its initializer is being read. -/
structure Declared where
  name : String
  ready : Bool
  deriving DecidableEq

abbrev StaticScope := List Declared

namespace StaticScope

def declares (scope : StaticScope) (name : String) : Bool := scope.any (·.name = name)

def isPending (scope : StaticScope) (name : String) : Bool :=
  scope.any fun declared => declared.name = name && !declared.ready

def markReady (scope : StaticScope) (name : String) : StaticScope :=
  scope.map fun declared => if declared.name = name then { declared with ready := true } else declared

end StaticScope

/-- The distance from the innermost of `scopes` to the first that declares the name. -/
def distance? (scopes : List StaticScope) (name : String) : Option Nat :=
  scopes.findIdx? (·.declares name)

/-- What is known while a program is resolved: the open scopes, innermost first, whether
a function encloses the current point, and the distances and faults found so far. -/
structure Resolving where
  scopes : List StaticScope
  inFunction : Bool
  distances : Array (NodeId × Nat)
  faults : Array (Located ResolveFault)

namespace Resolving

def report (state : Resolving) (fault : ResolveFault) (line : Nat) : Resolving :=
  { state with faults := state.faults.push ⟨fault, line⟩ }

def openScope (state : Resolving) : Resolving := { state with scopes := [] :: state.scopes }

def closeScope (state : Resolving) : Resolving := { state with scopes := state.scopes.tail }

/-- Declares a name in the innermost scope. -/
def declare (state : Resolving) (name : String) (line : Nat) : Resolving :=
  match state.scopes with
  | [] => state
  | scope :: outer =>
    if scope.declares name then state.report (.alreadyDeclared name) line
    else { state with scopes := (⟨name, false⟩ :: scope) :: outer }

/-- Makes a declared name of the innermost scope ready. -/
def define (state : Resolving) (name : String) : Resolving :=
  match state.scopes with
  | [] => state
  | scope :: outer => { state with scopes := scope.markReady name :: outer }

/-- Records the distance of a reference, if some scope declares the name. -/
def bind (state : Resolving) (id : NodeId) (name : String) : Resolving :=
  match distance? state.scopes name with
  | some distance => { state with distances := state.distances.push (id, distance) }
  | none => state

/-- A read of a name that the innermost scope has declared but not made ready is reported. -/
def checkReady (state : Resolving) (name : String) (line : Nat) : Resolving :=
  match state.scopes with
  | [] => state
  | scope :: _ =>
    if scope.isPending name then state.report (.readInOwnInitializer name) line else state

def checkReturn (state : Resolving) (line : Nat) : Resolving :=
  if state.inFunction then state else state.report .returnOutsideFunction line

def declareParams (state : Resolving) (params : List Parameter) : Resolving :=
  params.foldl (fun state param => (state.declare param.name param.line).define param.name) state

end Resolving

mutual

def Expr.resolve : Expr → Resolving → Resolving
  | .literal _ _, state => state
  | .commandRef _ _, state => state
  | .grouping inner _, state => inner.resolve state
  | .unary _ operand _, state => operand.resolve state
  | .binary _ left right _, state => right.resolve (left.resolve state)
  | .logical _ left right _, state => right.resolve (left.resolve state)
  | .variable id name line, state => (state.checkReady name line).bind id name
  | .assign id name value _, state => (value.resolve state).bind id name
  | .call callee args _, state => Expr.resolveAll args (callee.resolve state)

def Expr.resolveAll : List Expr → Resolving → Resolving
  | [], state => state
  | expr :: rest, state => Expr.resolveAll rest (expr.resolve state)

end

def ArgValue.resolve : ArgValue → Resolving → Resolving
  | .word _, state => state
  | .expr value, state => value.resolve state

def Arg.resolve : Arg → Resolving → Resolving
  | .positional value, state => value.resolve state
  | .flag _, state => state
  | .parameter _ values, state => values.foldl (fun state value => value.resolve state) state

def Command.resolve : Command → Resolving → Resolving
  | .deliver _ args _, state => args.foldl (fun state arg => arg.resolve state) state
  | .help _ _, state => state
  | .exit _, state => state

def Expr.resolveOption : Option Expr → Resolving → Resolving
  | none, state => state
  | some expr, state => expr.resolve state

mutual

def Stmt.resolve : Stmt → Resolving → Resolving
  | .block body, state => (Stmt.resolveAll body state.openScope).closeScope
  | .expression expr _, state => expr.resolve state
  | .branch condition thenBranch none _, state =>
    thenBranch.resolve (condition.resolve state)
  | .branch condition thenBranch (some elseBranch) _, state =>
    elseBranch.resolve (thenBranch.resolve (condition.resolve state))
  | .loop condition body _, state => body.resolve (condition.resolve state)
  | .print expr _, state => expr.resolve state
  | .return value line, state => Expr.resolveOption value (state.checkReturn line)
  | .declare name initializer line, state =>
    (Expr.resolveOption initializer (state.declare name line)).define name
  | .function name params body line, state =>
    let declared := (state.declare name line).define name
    let entered := { declared.openScope.declareParams params with inFunction := true }
    { (Stmt.resolveAll body entered).closeScope with inFunction := state.inFunction }
  | .command action, state => action.resolve state

def Stmt.resolveAll : List Stmt → Resolving → Resolving
  | [], state => state
  | stmt :: rest, state => Stmt.resolveAll rest (stmt.resolve state)

end

/-- The distances of a program's references in the order of their resolution, or the
faults in the order they were found. -/
def resolve (program : List Stmt) : Except (List (Located ResolveFault)) (List (NodeId × Nat)) :=
  let final := Stmt.resolveAll program ⟨[[]], false, #[], #[]⟩
  if final.faults.isEmpty then .ok final.distances.toList else .error final.faults.toList

end CommandScript
