import CommandScript.Proofs.Session.Tracking
import CommandScript.Proofs.Syntax.Equality

/-!
# Recorded distances only save looking up names

A host whose references go by the recorded distances and one that looks every name up
along the chain of scopes are led through the same history. If all programs are orderly,
both rules find the same scope for each reference that a machine comes to; so the machines
are the same step by step, and with them the answers, the effects and the sessions.

* `Setting.withLookup`: a setting with another rule of look-up.
* `Machine.Tracked.step_byName`: both rules make the same step.
* `serve_byName_eq`: both rules lead through the same history.
-/

namespace CommandScript

def Setting.withLookup (setting : Setting) (rule : LookupRule) : Setting :=
  { setting with lookup := rule }

variable {setting : Setting}

theorem Interpreter.Reaches.target?_eq {chronicle : Chronicle}
    (hsettled : ∀ occurrence, chronicle.accepted occurrence → occurrence.Settled)
    {state : Interpreter} {reference : Reference} (h : state.Reaches chronicle reference) :
    state.target? .byName reference.id reference.name =
      state.target? .resolved reference.id reference.name := by
  obtain ⟨live, twin, layout, context, hagree, hcovers, hfits, hknown⟩ := h
  rw [hagree.target?_eq, hagree.target?_eq]
  exact Interpreter.target?_eq hcovers.globals hcovers.store hcovers.legit.linked hfits hknown
    (hcovers.legit.placed _ hknown) (hsettled _ (hcovers.legit.accepted _ hknown))

namespace Machine

/-- A step asks for the rule of look-up only at a variable, and before an assignment. -/
theorem step_withLookup {machine : Machine}
    (hread : ∀ id name line, machine.control = .eval (.variable id name line) →
      machine.state.target? .byName id name = machine.state.target? .resolved id name)
    (hwrite : ∀ value id name line frames, machine.control = .value value →
      machine.frames = .assign id name line :: frames →
      machine.state.target? .byName id name = machine.state.target? .resolved id name) :
    machine.step (setting.withLookup .byName) = machine.step (setting.withLookup .resolved) := by
  obtain ⟨control, frames, state⟩ := machine
  cases control with
  | eval expr =>
    cases expr with
    | «variable» id name line =>
      simp only [step, stepEval, Setting.withLookup, Interpreter.lookUp?, hread id name line rfl]
    | _ => rfl
  | value value =>
    cases frames with
    | nil => rfl
    | cons frame rest =>
      cases frame with
      | assign id name line =>
        simp only [step, stepValue, Setting.withLookup, hwrite value id name line rest rfl rfl]
      | _ => rfl
  | done => cases frames <;> rfl
  | returning value => cases frames <;> rfl
  | halting halt => cases frames <;> rfl
  | _ => rfl

theorem Tracked.step_byName {chronicle : Chronicle}
    (hsettled : ∀ occurrence, chronicle.accepted occurrence → occurrence.Settled)
    {machine : Machine} (h : machine.Tracked chronicle) :
    machine.step (setting.withLookup .byName) = machine.step (setting.withLookup .resolved) := by
  obtain ⟨control, frames, state⟩ := machine
  refine step_withLookup ?_ ?_
  · rintro id name line rfl
    exact h.reaches_read.target?_eq hsettled
  · rintro value id name line rest rfl rfl
    exact h.reaches_write.target?_eq hsettled

/-- Machines that take the same steps take the same course. -/
theorem after_congr {setting other : Setting} {machine : Machine} {n : Nat}
    (h : ∀ k < n, (machine.after setting k).step other = (machine.after setting k).step setting) :
    machine.after other n = machine.after setting n := by
  induction n with
  | zero => rfl
  | succ n ih =>
    rw [after_succ, after_succ, ih fun k hk => h k (Nat.lt_succ_of_lt hk),
      h n (Nat.lt_succ_self n)]

end Machine

namespace Session

/-- What an action does depends on the rule of look-up only through the steps of the
machines that the action comes past. -/
theorem act_withLookup {session : Session} {action : HostAction}
    (h : ∀ machine, Visits (setting.withLookup .resolved) session [action] machine →
      machine.step (setting.withLookup .byName) = machine.step (setting.withLookup .resolved)) :
    session.act (setting.withLookup .byName) action =
      session.act (setting.withLookup .resolved) action := by
  cases action with
  | run source budget =>
    cases hlaunch : session.launch source with
    | none =>
      have hnone : session.accepted? source = none := Option.map_eq_none_iff.mp hlaunch
      simp only [act, run_of_rejected hnone]
    | some machine =>
      have hafter := Machine.after_congr fun k hk =>
        h _ (.running hlaunch (Nat.le_of_lt hk))
      simp only [act, run_of_launch hlaunch, Machine.run_eq_ite, hlaunch, Option.map_some, hafter]
      rfl
  | _ => rfl

/-- A history depends on the rule of look-up only through the steps of its machines. -/
theorem serve_withLookup {session : Session} {actions : List HostAction}
    (h : ∀ machine, Visits (setting.withLookup .resolved) session actions machine →
      machine.step (setting.withLookup .byName) = machine.step (setting.withLookup .resolved)) :
    session.serve (setting.withLookup .byName) actions =
      session.serve (setting.withLookup .resolved) actions := by
  induction actions generalizing session with
  | nil => rfl
  | cons action rest ih =>
    have hact : session.act (setting.withLookup .byName) action =
        session.act (setting.withLookup .resolved) action := by
      refine act_withLookup fun machine hvisits => h machine ?_
      cases hvisits with
      | running hlaunch hn => exact .running hlaunch hn
      | later _ hnil => cases hnil
    rw [serve, serve, hact]
    cases hresult : session.act (setting.withLookup .resolved) action with
    | error machine => rfl
    | ok result =>
      obtain ⟨answer, next⟩ := result
      simp only [ih fun machine hvisits => h machine (.later hresult hvisits)]

/-- **Recorded distances only save looking up names.** If no block and no function of the
programs mentions a name before its own declaration of the name is complete, then the host
that looks names up along the chain of scopes gets the same answers, has the same effects
and ends in the same session as the host that uses the recorded distances. -/
theorem serve_byName_eq (setting : Setting) (hnative : setting.NativesMakeNoFunctions)
    (sink : Sink) (actions : List HostAction)
    (hids : (initial setting sink).handedOut (setting.withLookup .resolved) actions < 2 ^ 32)
    (horderly : ∀ program ∈ (initial setting sink).programs (setting.withLookup .resolved) actions,
      Stmt.OrderlyAll program) :
    (initial setting sink).serve (setting.withLookup .byName) actions =
      (initial setting sink).serve (setting.withLookup .resolved) actions := by
  let chronicle : Chronicle :=
    { opened := fun _ _ => True
      accepted := Occurrence.Settled
      handedOut := 0 }
  have htracked : (initial setting sink).Tracked chronicle :=
    tracked_initial (setting.withLookup .resolved) sink rfl
  refine serve_withLookup fun machine hvisits => ?_
  have hnative : (setting.withLookup .resolved).NativesMakeNoFunctions := hnative
  obtain ⟨count, hmachine⟩ := htracked.visits hnative (by rwa [Nat.zero_add])
    (fun program hmem => (horderly program hmem).settled) (fun _ _ _ _ => trivial) hvisits
  exact hmachine.step_byName fun _ h => h

/-- An assignment in a block within the block that has declared the variable. -/
theorem serve_byName_eq_of_block :
    let setting : Setting := ⟨.resolved, some 1, fun _ _ _ => .ok .null⟩
    let session := initial setting .unlimited
    let actions : List HostAction := [.run "{ var x; { x = x; } }" 20]
    setting.NativesMakeNoFunctions ∧
      session.handedOut (setting.withLookup .resolved) actions < 2 ^ 32 ∧
      (∀ program ∈ session.programs (setting.withLookup .resolved) actions,
        Stmt.OrderlyAll program) ∧
      session.serve (setting.withLookup .byName) actions =
        session.serve (setting.withLookup .resolved) actions := by
  intro setting session actions
  have hnative : setting.NativesMakeNoFunctions := by
    intro native args line value h
    cases h
    exact .inl rfl
  have hids : session.handedOut (setting.withLookup .resolved) actions < 2 ^ 32 := by
    rw [handedOut_singleton]
    decide +kernel
  have horderly : ∀ program ∈ session.programs (setting.withLookup .resolved) actions,
      Stmt.OrderlyAll program := by
    have haccepted : session.accepted? "{ var x; { x = x; } }" = some
        ([.block [.declare "x" none 1,
          .block [.expression (.assign 0 "x" (.variable 1 "x" 1) 1) 1]]], [(1, 1), (0, 1)]) := by
      decide +kernel
    intro program hmem
    rw [programs_singleton, programsOf, haccepted] at hmem
    obtain rfl := List.mem_singleton.mp hmem
    refine ⟨⟨?_, trivial, ⟨?_, trivial, trivial⟩, trivial⟩, trivial⟩
    · rintro (_ | ⟨first, _ | ⟨second, before⟩⟩) stmt rest name hbody hname
      all_goals simp at hbody
      · obtain ⟨rfl, -⟩ := hbody
        simp [Stmt.mentionsAll, Stmt.referencesAll, Stmt.initializerMentions,
          Expr.referencesOption]
      · obtain ⟨-, rfl, -⟩ := hbody
        cases hname
    · rintro (_ | ⟨first, before⟩) stmt rest name hbody hname
      all_goals simp at hbody
      obtain ⟨rfl, -⟩ := hbody
      cases hname
  exact ⟨hnative, hids, horderly, serve_byName_eq setting hnative .unlimited actions hids horderly⟩

end Session

end CommandScript
