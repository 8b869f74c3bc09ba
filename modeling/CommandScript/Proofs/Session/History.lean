import CommandScript.Proofs.Machine.Course
import CommandScript.Session

/-!
# Histories of sessions

A host works with a session by actions: it runs and parses inputs, changes the mode,
registers modules, binds globals to values that are no declared functions, and takes the
effects so far. A history is a list of actions. It ends early when a run uses up its
budget; then the machine of that run is what there is.

* `Session.act`, `Session.serve`: the answers to an action and to a history.
* `Session.accepted?`, `Session.launch`: the program of an input that is run, and the
  machine that is about to run it.
* `Session.programs`, `Session.handedOut`: the programs run in a history, and the number of
  node ids that it hands out.
* `Session.Visits`: the machines that a history comes past.
* `Session.parse_eq`: what parsing an input changes.
* `Session.run_of_rejected`, `Session.run_of_launch`, `Session.act_run_cases`: a run in terms
  of the program that is run.
-/

namespace CommandScript

inductive HostAction where
  | run (source : String) (budget : Nat)
  | parse (source : String)
  | setMode (mode : InputMode)
  | register (name : String) (module : CommandModule)
  | install (module : CommandModule)
  /-- Binds a global; the host makes no function values. -/
  | define (name : String) (value : Value) (plain : value.closure? = none)
  | takeEffects

inductive HostAnswer where
  | ran (result : Except (List (Located Fault)) Status)
  | parsed (result : Except (List (Located Fault)) (List Stmt))
  | took (effects : Array Effect)
  | done

/-- Where a history has come to. -/
inductive Ending where
  | finished (session : Session)
  /-- The budget of a run was used up when its machine had come this far. -/
  | unfinished (machine : Option Machine)

def Ending.effects : Ending → Array Effect
  | .finished session => session.interpreter.effects
  | .unfinished (some machine) => machine.state.effects
  | .unfinished none => #[]

namespace Session

/-- The session in which an input has been read. -/
def afterReading (session : Session) (source : String) : Session := (session.read source).2

/-- The program of an input that is run, and the distances of its references. -/
def accepted? (session : Session) (source : String) :
    Option (List Stmt × List (NodeId × Nat)) :=
  if (session.afterReading source).diagnostics.hadError then none
  else
    match resolve (session.read source).1 with
    | .ok distances => some ((session.read source).1, distances)
    | .error _ => none

/-- The machine that is about to run an input. -/
def launch (session : Session) (source : String) : Option Machine :=
  (session.accepted? source).map fun (program, distances) =>
    (session.interpreter.addDistances distances).start program

def act (setting : Setting) (session : Session) :
    HostAction → Except (Option Machine) (HostAnswer × Session)
  | .run source budget =>
    match session.run setting budget source with
    | some (result, session) => .ok (.ran result, session)
    | none => .error ((session.launch source).map (·.after setting budget))
  | .parse source =>
    let (result, session) := session.parse source
    .ok (.parsed result, session)
  | .setMode mode => .ok (.done, { session with mode })
  | .register name module => .ok (.done, session.register name module)
  | .install module => .ok (.done, session.install module)
  | .define name value _ =>
    let interpreter := session.interpreter.define session.interpreter.globals name value
    .ok (.done, { session with interpreter })
  | .takeEffects =>
    .ok (.took session.interpreter.effects,
      { session with interpreter := { session.interpreter with effects := #[] } })

/-- The answers to a history, and where it ends. -/
def serve (setting : Setting) : Session → List HostAction → List HostAnswer × Ending
  | session, [] => ([], .finished session)
  | session, action :: rest =>
    match session.act setting action with
    | .ok (answer, session) =>
      let (answers, ending) := session.serve setting rest
      (answer :: answers, ending)
    | .error machine => ([], .unfinished machine)

/-- The programs that are run for an action. -/
def programsOf (session : Session) : HostAction → List (List Stmt)
  | .run source _ => ((session.accepted? source).map Prod.fst).toList
  | _ => []

/-- The number of node ids handed out for an action. -/
def idsDrawn (session : Session) : HostAction → Nat
  | .run source _ | .parse source =>
    (CommandScript.parse session.mode (scan session.words source).tokens session.nextId).drawn
  | _ => 0

/-- All programs that are run in a history. -/
def programs (setting : Setting) : Session → List HostAction → List (List Stmt)
  | _, [] => []
  | session, action :: rest =>
    session.programsOf action ++
      match session.act setting action with
      | .ok (_, session) => session.programs setting rest
      | .error _ => []

/-- The number of node ids that a history hands out. -/
def handedOut (setting : Setting) : Session → List HostAction → Nat
  | _, [] => 0
  | session, action :: rest =>
    session.idsDrawn action +
      match session.act setting action with
      | .ok (_, session) => session.handedOut setting rest
      | .error _ => 0

/-- The machines that a history comes past. -/
inductive Visits (setting : Setting) : Session → List HostAction → Machine → Prop where
  | running {session : Session} {source : String} {budget n : Nat} {rest : List HostAction}
      {machine : Machine} : session.launch source = some machine → n ≤ budget →
      Visits setting session (.run source budget :: rest) (machine.after setting n)
  | later {session next : Session} {action : HostAction} {rest : List HostAction}
      {answer : HostAnswer} {machine : Machine} :
      session.act setting action = .ok (answer, next) → Visits setting next rest machine →
      Visits setting session (action :: rest) machine

theorem programs_singleton (setting : Setting) (session : Session) (action : HostAction) :
    session.programs setting [action] = session.programsOf action := by
  unfold programs
  split <;> exact List.append_nil _

theorem handedOut_singleton (setting : Setting) (session : Session) (action : HostAction) :
    session.handedOut setting [action] = session.idsDrawn action := by
  unfold handedOut
  split <;> rfl

/-! ## Runs -/

theorem afterReading_eq (session : Session) (source : String) :
    session.afterReading source =
      { session with
        nextId := (session.afterReading source).nextId
        diagnostics := (session.afterReading source).diagnostics } := by
  unfold afterReading read
  dsimp only
  split <;> rfl

theorem afterReading_interpreter (session : Session) (source : String) :
    (session.afterReading source).interpreter = session.interpreter := by
  rw [afterReading_eq]

/-- To parse an input reads it and takes the diagnostics. -/
theorem parse_eq (session : Session) (source : String) :
    (session.parse source).2 =
      { session.afterReading source with
        diagnostics := (session.parse source).2.diagnostics } := by
  unfold Session.parse afterReading
  dsimp only
  split <;> rfl

/-- The faults of an input that is not run, and the session that has reported them. -/
def rejected (session : Session) (source : String) : List (Located Fault) × Session :=
  let read := session.afterReading source
  let faults :=
    if read.diagnostics.hadError then []
    else
      match resolve (session.read source).1 with
      | .ok _ => []
      | .error faults => faults.map (·.map Fault.resolve)
  { read with diagnostics := read.diagnostics.reportAll faults }.takeErrors

theorem run_of_rejected {setting : Setting} {session : Session} {source : String}
    (h : session.accepted? source = none) (budget : Nat) :
    session.run setting budget source =
      some (.error (session.rejected source).1, (session.rejected source).2) := by
  unfold accepted? at h
  unfold run rejected
  unfold afterReading at h ⊢
  dsimp only at h ⊢
  cases hresolve : resolve (session.read source).1 with
  | ok distances =>
    rw [hresolve] at h
    by_cases hread : (session.read source).2.diagnostics.hadError = true
    · rw [if_pos hread, if_pos hread]
      rfl
    · rw [if_neg hread] at h
      cases h
  | error faults =>
    by_cases hread : (session.read source).2.diagnostics.hadError = true
    · rw [if_pos hread, if_pos hread]
      rfl
    · rw [if_neg hread, if_neg hread]
      rfl

/-- What a machine at rest means for the session that has launched it. -/
def settle (setting : Setting) (session : Session) (final : Machine) :
    Except (List (Located Fault)) Status × Session :=
  let session := { session with interpreter := final.state.collectAtEnd setting }
  match Interpreter.outcome final.control final.state.sink.flushFails with
  | .ok status => (.ok status, session)
  | .error fault => session.reject [fault.map Fault.runtime]

theorem run_of_launch {setting : Setting} {session : Session} {source : String}
    {machine : Machine} (h : session.launch source = some machine) (budget : Nat) :
    session.run setting budget source =
      (machine.run setting budget).map ((session.afterReading source).settle setting) := by
  obtain ⟨⟨program, distances⟩, haccepted, rfl⟩ := Option.map_eq_some_iff.mp h
  unfold accepted? afterReading at haccepted
  unfold run afterReading
  dsimp only at haccepted ⊢
  by_cases hread : (session.read source).2.diagnostics.hadError = true
  · rw [if_pos hread] at haccepted
    cases haccepted
  · rw [if_neg hread] at haccepted ⊢
    cases hresolve : resolve (session.read source).1 with
    | error faults =>
      rw [hresolve] at haccepted
      cases haccepted
    | ok found =>
      rw [hresolve] at haccepted
      obtain ⟨hprogram, rfl⟩ := Prod.mk.inj (Option.some.inj haccepted)
      have hsame : (session.read source).2.interpreter = session.interpreter :=
        session.afterReading_interpreter source
      simp only [execute, Interpreter.interpret, Option.map_map, hsame, hprogram]
      rfl

/-- An input that has been run was rejected, or its machine has come to rest. -/
theorem act_run_cases {setting : Setting} {session next : Session} {source : String}
    {budget : Nat} {answer : HostAnswer}
    (h : session.act setting (.run source budget) = .ok (answer, next)) :
    session.accepted? source = none ∧ next = (session.rejected source).2 ∨
      ∃ machine, session.launch source = some machine ∧
        (machine.after setting budget).atRest = true ∧
        next = ((session.afterReading source).settle setting (machine.after setting budget)).2 := by
  cases hlaunch : session.launch source with
  | none =>
    have hnone : session.accepted? source = none := Option.map_eq_none_iff.mp hlaunch
    simp only [act, run_of_rejected hnone] at h
    exact .inl ⟨hnone, (Prod.mk.inj (Except.ok.inj h)).2.symm⟩
  | some machine =>
    simp only [act, run_of_launch hlaunch, Machine.run_eq_ite] at h
    cases hrest : (machine.after setting budget).atRest with
    | true =>
      rw [hrest] at h
      exact .inr ⟨machine, rfl, hrest, (Prod.mk.inj (Except.ok.inj h)).2.symm⟩
    | false =>
      rw [hrest] at h
      cases h

end Session

end CommandScript
