import CommandScript.Proofs.Session.Tracking
import CommandScript.Proofs.Syntax.Equality

/-!
# Resolved reads succeed

When a machine comes to a variable whose distance was recorded, there are as many
enclosing scopes as the distance says, each an instance of the block or function that
encloses the variable in its program, and the one at the distance binds the name. For no
path of control leads past a declaration to a later reference in the same scope.

* `Session.Opened`: a scope was opened for a block or function in a history.
* `Interpreter.Selects`: the scope at the distance is the one that resolution chose.
* `Interpreter.Resolves`: moreover, it binds the name.
* `resolved_read`: all reads that resolution has resolved succeed.
-/

namespace CommandScript

/-- A machine that the history comes past opens the scope for what is given. -/
def Session.Opened (setting : Setting) (session : Session) (actions : List HostAction)
    (id : ScopeId) (origin : Origin) : Prop :=
  ∃ machine, Session.Visits setting session actions machine ∧ machine.opens? = some origin ∧
    machine.state.scopes.nextId = id

/-- In its context, the name was declared in a level whose instance binds it. -/
structure Interpreter.Resolves (opened : ScopeId → Origin → Prop) (state : Interpreter)
    (context : Context) (name : String) (distance : Nat) (scope : ScopeId) : Prop where
  chosen : distance? context.scopes name = some distance
  /-- Every enclosing level has an instance among the enclosing scopes. -/
  instances : ∀ (outward : Nat) level, context[outward]? = some level →
    ∃ id, state.scopes.ancestor? state.current outward = some id ∧
      (level.origin = .top ∧ id = state.globals ∨ opened id level.origin)
  found : state.scopes.ancestor? state.current distance = some scope
  ready : ∃ level, context[distance]? = some level ∧ level.Ready name
  bound : (state.scopes.local? scope name).isSome

/-- The scope at the distance is the instance of the level that resolution chose, and binds
the name where that level has it ready. -/
structure Interpreter.Selects (opened : ScopeId → Origin → Prop) (state : Interpreter)
    (context : Context) (name : String) (distance : Nat) (scope : ScopeId) : Prop where
  chosen : distance? context.scopes name = some distance
  /-- Every enclosing level has an instance among the enclosing scopes. -/
  instances : ∀ (outward : Nat) level, context[outward]? = some level →
    ∃ id, state.scopes.ancestor? state.current outward = some id ∧
      (level.origin = .top ∧ id = state.globals ∨ opened id level.origin)
  found : state.scopes.ancestor? state.current distance = some scope
  ready : ∃ level, context[distance]? = some level ∧ level.names.declares name = true ∧
    (level.Ready name → (state.scopes.local? scope name).isSome)

theorem Interpreter.Reaches.selects {chronicle : Chronicle} {state : Interpreter}
    {reference : Reference} (h : state.Reaches chronicle reference) {distance : Nat}
    (hdistance : state.distances[reference.id]? = some distance) :
    ∃ context scope, chronicle.accepted ⟨context, .mention reference⟩ ∧
      Occurrence.WellPlaced ⟨context, .mention reference⟩ ∧
      Occurrence.Permitted ⟨context, .mention reference⟩ ∧
      state.Selects chronicle.opened context reference.name distance scope := by
  obtain ⟨live, twin, layout, context, hagree, hcovers, hfits, hknown⟩ := h
  have hsame : twin.distances = state.distances ∧ twin.current = state.current ∧
      twin.globals = state.globals := by
    rw [hagree.outside]
    exact ⟨rfl, rfl, rfl⟩
  obtain ⟨hdistances, hcurrent, hglobals⟩ := hsame
  have hchosen : distance? context.scopes reference.name = some distance := by
    rw [← hcovers.legit.linked context _ hknown, hdistances]
    exact hdistance
  have hinstances : ∀ (outward : Nat) level, context[outward]? = some level →
      ∃ id, state.scopes.ancestor? state.current outward = some id ∧
        (level.origin = .top ∧ id = state.globals ∨ chronicle.opened id level.origin) := by
    intro outward level hlevel
    obtain ⟨scope, hscope, hlt, horigin, -⟩ := hfits.chain hcovers.store hlevel
    rw [hcurrent, ← hagree.scopes.ancestor?_eq hagree.current] at hscope
    refine ⟨scope, hscope, ?_⟩
    rw [← horigin]
    rcases hcovers.traces scope hlt with rfl | hopened
    · exact .inl ⟨hcovers.store.top, hcovers.globals.symm.trans hglobals⟩
    · exact .inr hopened
  obtain ⟨level, hlevel, hdeclares⟩ := Context.level_of_distance? hchosen
  obtain ⟨scope, hscope, -, -, hbound⟩ := hfits.chain hcovers.store hlevel
  rw [hcurrent, ← hagree.scopes.ancestor?_eq hagree.current] at hscope
  refine ⟨context, scope, hcovers.legit.accepted _ hknown, hcovers.legit.placed _ hknown,
    hcovers.legit.permitted _ hknown, hchosen, hinstances, hscope, level, hlevel, hdeclares, ?_⟩
  rw [hagree.scopes.local?_eq (hagree.scopes.live_ancestor? hagree.current hscope)]
  exact hbound reference.name

theorem Interpreter.Reaches.resolves {chronicle : Chronicle} {state : Interpreter}
    {id : NodeId} {name : String} (h : state.Reaches chronicle ⟨id, name, .read⟩)
    {distance : Nat} (hdistance : state.distances[id]? = some distance) :
    ∃ context scope, chronicle.accepted ⟨context, .mention ⟨id, name, .read⟩⟩ ∧
      state.Resolves chronicle.opened context name distance scope := by
  obtain ⟨context, scope, haccepted, hplaced, hpermitted, hselects⟩ := h.selects hdistance
  obtain ⟨level, hlevel, hdeclares, hbound⟩ := hselects.ready
  have hready := hplaced.ready_of_read hpermitted hlevel hdeclares
  exact ⟨context, scope, haccepted, hselects.chosen, hselects.instances, hselects.found,
    ⟨level, hlevel, hready⟩, hbound hready⟩

theorem Interpreter.Resolves.lookUp?_eq {opened : ScopeId → Origin → Prop} {state : Interpreter}
    {context : Context} {name : String} {distance : Nat} {scope : ScopeId}
    (h : state.Resolves opened context name distance scope) {id : NodeId}
    (hdistance : state.distances[id]? = some distance) :
    state.lookUp? .resolved id name = state.scopes.local? scope name := by
  simp only [Interpreter.lookUp?, Interpreter.target?, hdistance, h.found, Option.filter, h.bound,
    if_true, Option.bind_some]

namespace Session

/-- **Resolved reads succeed.** Whenever a machine of a history comes to a variable with a
recorded distance, the variable stands in a program of the history, the scope at the
distance is an instance of the level that resolution chose, and the machine goes on with
the value that this scope binds to the name. -/
theorem resolved_read {setting : Setting} (hrule : setting.lookup = .resolved)
    (hnative : setting.NativesMakeNoFunctions) (sink : Sink) (actions : List HostAction)
    (hids : (initial setting sink).handedOut setting actions < 2 ^ 32)
    {id : NodeId} {name : String} {line : Nat} {frames : List Frame} {state : Interpreter}
    (hvisits : Visits setting (initial setting sink) actions
      ⟨.eval (.variable id name line), frames, state⟩)
    {distance : Nat} (hdistance : state.distances[id]? = some distance) :
    ∃ program ∈ (initial setting sink).programs setting actions, ∃ context scope value,
      ⟨context, .mention ⟨id, name, .read⟩⟩ ∈ Stmt.occurrencesAll program .top ∧
      state.Resolves ((initial setting sink).Opened setting actions) context name distance scope ∧
      state.scopes.local? scope name = some value ∧
      Machine.step setting ⟨.eval (.variable id name line), frames, state⟩ =
        ⟨.value value, frames, state⟩ := by
  let chronicle : Chronicle :=
    { opened := (initial setting sink).Opened setting actions
      accepted := fun occurrence => ∃ program ∈ (initial setting sink).programs setting actions,
        occurrence ∈ Stmt.occurrencesAll program .top
      handedOut := 0 }
  have htracked : (initial setting sink).Tracked chronicle := tracked_initial setting sink rfl
  obtain ⟨count, hmachine⟩ := htracked.visits hnative (by rwa [Nat.zero_add])
    (fun program hmem occurrence hoccurrence => ⟨program, hmem, hoccurrence⟩)
    (fun machine origin hvisited horigin => ⟨machine, hvisited, horigin, rfl⟩) hvisits
  obtain ⟨context, scope, ⟨program, hmem, hoccurrence⟩, hresolves⟩ :=
    hmachine.reaches_read.resolves hdistance
  obtain ⟨value, hvalue⟩ := Option.isSome_iff_exists.mp hresolves.bound
  refine ⟨program, hmem, context, scope, value, hoccurrence, hresolves, hvalue, ?_⟩
  simp only [Machine.step, Machine.stepEval, hrule, hresolves.lookUp?_eq hdistance, hvalue]

/-- The read in a block within the block that declares the variable. -/
theorem resolved_read_of_block :
    let setting : Setting := ⟨.resolved, some 1, fun _ _ _ => .ok .null⟩
    let session := initial setting .unlimited
    let actions : List HostAction := [.run "{ var x; { x; } }" 7]
    setting.NativesMakeNoFunctions ∧ session.handedOut setting actions < 2 ^ 32 ∧
      ∃ frames state,
        Visits setting session actions ⟨.eval (.variable 0 "x" 1), frames, state⟩ ∧
        state.distances[(0 : NodeId)]? = some 1 ∧
        ∃ program ∈ session.programs setting actions, ∃ context scope value,
          ⟨context, .mention ⟨0, "x", .read⟩⟩ ∈ Stmt.occurrencesAll program .top ∧
          state.Resolves (session.Opened setting actions) context "x" 1 scope ∧
          state.scopes.local? scope "x" = some value ∧
          Machine.step setting ⟨.eval (.variable 0 "x" 1), frames, state⟩ =
            ⟨.value value, frames, state⟩ := by
  intro setting session actions
  have hnative : setting.NativesMakeNoFunctions := by
    intro native args line value h
    cases h
    exact .inl rfl
  have hids : session.handedOut setting actions < 2 ^ 32 := by
    rw [handedOut_singleton]
    decide +kernel
  let program : List Stmt :=
    [.block [.declare "x" none 1, .block [.expression (.variable 0 "x" 1) 1]]]
  have haccepted : session.accepted? "{ var x; { x; } }" = some (program, [(0, 1)]) := by
    decide +kernel
  let machine := (session.interpreter.addDistances [(0, 1)]).start program
  have hlaunch : session.launch "{ var x; { x; } }" = some machine := by
    rw [launch, haccepted]
    rfl
  have hvisits : Visits setting session actions ⟨.eval (.variable 0 "x" 1),
      (machine.after setting 7).frames, (machine.after setting 7).state⟩ :=
    .running hlaunch (Nat.le_refl 7)
  have hdistance : (machine.after setting 7).state.distances[(0 : NodeId)]? = some 1 := by
    rw [(Machine.conserves_after setting 7 machine).distances]
    show (Std.HashMap.insertMany ∅ [((0 : NodeId), 1)])[(0 : NodeId)]? = some 1
    simp
  exact ⟨hnative, hids, _, _, hvisits, hdistance,
    resolved_read rfl hnative .unlimited actions hids hvisits hdistance⟩

end Session

end CommandScript
