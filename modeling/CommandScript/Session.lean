import CommandScript.Diagnostics
import CommandScript.Grammar.Program
import CommandScript.Machine.Run
import CommandScript.Resolution
import CommandScript.Token.Scan

/-!
# Sessions

A session runs one input after another. Inputs share the globals, the counter of node ids
and the distances of references, so a function of an earlier input keeps its meaning. An
input with a lexical, syntactic or scoping error is not run at all.

* `Session.parse`: the program of an input.
* `Session.run`: runs an input; there is no answer if the budget of steps is used up.
* `Session.register`, `Session.install`: add a module and its command words.
-/

namespace CommandScript

structure Session where
  nextId : NodeId
  words : CommandWords
  interpreter : Interpreter
  diagnostics : Diagnostics
  mode : InputMode

namespace Session

def initial (setting : Setting) (sink : Sink) : Session where
  nextId := 0
  words := Registry.empty.commandWords
  interpreter := Interpreter.initial setting Registry.empty sink
  diagnostics := .empty
  mode := .script

def withRegistry (session : Session) (registry : Registry) : Session :=
  { session with
    interpreter := { session.interpreter with registry := registry }
    words := registry.commandWords }

def register (session : Session) (name : String) (module : CommandModule) : Session :=
  session.withRegistry (session.interpreter.registry.register name module)

def install (session : Session) (module : CommandModule) : Session :=
  session.withRegistry (session.interpreter.registry.install module)

/-- Scans and parses an input and reports what is wrong with it. -/
def read (session : Session) (source : String) : List Stmt × Session :=
  let scanned := scan session.words source
  let parsed := CommandScript.parse session.mode scanned.tokens session.nextId
  let diagnostics := Diagnostics.empty.reportAll (scanned.errors.map (·.map Fault.lex))
  match parsed.program with
  | .ok program => (program, { session with nextId := parsed.nextId, diagnostics })
  | .error faults =>
    let diagnostics := diagnostics.reportAll (faults.map (·.map Fault.parse))
    ([], { session with nextId := parsed.nextId, diagnostics })

/-- Takes the reported errors out of a session. -/
def takeErrors (session : Session) : List (Located Fault) × Session :=
  let (errors, diagnostics) := session.diagnostics.take
  (errors, { session with diagnostics })

/-- Reports errors and takes them with all others. -/
def reject {α : Type} (session : Session) (errors : List (Located Fault)) :
    Except (List (Located Fault)) α × Session :=
  let diagnostics := session.diagnostics.reportAll errors
  let (errors, session) := { session with diagnostics }.takeErrors
  (.error errors, session)

def parse (session : Session) (source : String) :
    Except (List (Located Fault)) (List Stmt) × Session :=
  let (program, session) := session.read source
  if session.diagnostics.hadError then session.reject [] else (.ok program, session)

/-- Runs a program whose references have the given distances. -/
def execute (setting : Setting) (budget : Nat) (session : Session) (program : List Stmt)
    (distances : List (NodeId × Nat)) :
    Option (Except (List (Located Fault)) Status × Session) :=
  let interpreter := session.interpreter.addDistances distances
  (interpreter.interpret setting budget program).map fun (outcome, interpreter) =>
    let session := { session with interpreter }
    match outcome with
    | .ok status => (.ok status, session)
    | .error fault => session.reject [fault.map Fault.runtime]

def run (setting : Setting) (budget : Nat) (session : Session) (source : String) :
    Option (Except (List (Located Fault)) Status × Session) :=
  let (program, session) := session.read source
  if session.diagnostics.hadError then some (session.reject [])
  else
    match resolve program with
    | .ok distances => session.execute setting budget program distances
    | .error faults => some (session.reject (faults.map (·.map Fault.resolve)))

end Session

end CommandScript
