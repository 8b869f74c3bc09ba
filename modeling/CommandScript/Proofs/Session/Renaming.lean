import CommandScript.Proofs.Machine.Lockstep
import CommandScript.Proofs.Machine.Unwinding
import CommandScript.Proofs.Resolution.Renaming
import CommandScript.Proofs.Session.Tracking
import CommandScript.Proofs.Syntax.Equality

/-!
# Local names do not matter

An accepted program in which a local declaration and the references bound to it get a new name
does the same: it writes the same output, sends the same commands and ends the same way. If a
reference that was renamed fails, the fault has the new name.

Both programs start in the same interpreter, which agrees with one that has never collected
scopes. There they run in lockstep, and with collections each of them does what it does there.

* `Machine.InStep`: machines that differ in collections and in the name only.
* `Machine.Fails`: a reference fails in the course of a machine.
* `SameRun`: runs that end the same way but for the name of a reference that failed.
* `Session.local_names_irrelevant`: the result for all programs.
-/

namespace CommandScript

/-! ## References that fail -/

namespace Machine

variable {setting : Setting} {machine other : Machine} {reference : Reference} {line : Nat}

/-- At some point of its course the machine comes to the reference, which fails. -/
def Fails (setting : Setting) (machine : Machine) (reference : Reference) (line : Nat) : Prop :=
  ∃ n, (machine.after setting n).Raises setting reference line

theorem Raises.not_atRest (h : machine.Raises setting reference line) : machine.atRest = false := by
  obtain ⟨hreference, -⟩ := h
  unfold reference? at hreference
  split at hreference
  · rfl
  · rfl
  · cases hreference

/-- If a reference fails, this is how the run ends. -/
theorem Fails.control_eq (h : machine.Fails setting reference line) {budget : Nat}
    (hrest : (machine.after setting budget).atRest = true) :
    (machine.after setting budget).control =
      .halting (.fault ⟨.undefinedVariable reference.name, line⟩) := by
  obtain ⟨n, hraises⟩ := h
  have hn : n < budget := by
    by_contra hlarge
    obtain ⟨more, rfl⟩ := Nat.exists_eq_add_of_le (Nat.not_lt.mp hlarge)
    have hnot := hraises.not_atRest
    rw [after_add, after_of_atRest hrest, hrest] at hnot
    cases hnot
  obtain ⟨more, rfl⟩ := Nat.exists_eq_add_of_le (Nat.succ_le_of_lt hn)
  rw [after_add, after_succ]
  exact (after_of_halting hraises.2 more).1

theorem AgreeOn.raises_iff (hnative : setting.NativesMakeNoFunctions) {live : ScopeId → Prop}
    (h : machine.AgreeOn live other) :
    machine.Raises setting reference line ↔ other.Raises setting.keeping reference line := by
  obtain ⟨reached, hstep⟩ := h.step hnative
  have hreference : machine.reference? = other.reference? := by
    obtain ⟨control, frames, state⟩ := machine
    obtain ⟨control', frames', state'⟩ := other
    obtain rfl : control = control' := h.control_eq
    obtain rfl : frames = frames' := h.frames_eq
    cases control with
    | eval expr => cases expr <;> rfl
    | value value =>
      cases frames with
      | nil => rfl
      | cons frame rest => cases frame <;> rfl
    | _ => rfl
  rw [Raises, Raises, hreference, hstep.control_eq]

/-! ## Machines in step -/

/-- The machines differ in the name if collections are forgotten. -/
def InStep (r : Renaming) (fits : Reference → Prop) (raised : Nat → Prop)
    (machine other : Machine) : Prop :=
  ∃ (live reached : ScopeId → Prop) (middle middle' : Machine),
    machine.AgreeOn live middle ∧ other.AgreeOn reached middle' ∧
      middle.Aligned r fits raised middle'

namespace InStep

variable {r : Renaming} {fits : Reference → Prop} {raised : Nat → Prop}

theorem step (hrule : setting.lookup = .resolved) (hnatives : setting.NativesSeeOutlines)
    (h : machine.InStep r fits raised other)
    (hraised : ∀ id access line, machine.Raises setting ⟨id, r.old, access⟩ line →
      other.Raises setting ⟨id, r.new, access⟩ line → raised line) :
    (machine.step setting).InStep r fits raised (other.step setting) := by
  have hnative := hnatives.makeNoFunctions
  obtain ⟨live, reached, middle, middle', hleft, hright, haligned⟩ := h
  obtain ⟨live', hleft'⟩ := hleft.step hnative
  obtain ⟨reached', hright'⟩ := hright.step hnative
  refine ⟨live', reached', _, _, hleft', hright', haligned.step hrule hnatives ?_⟩
  intro id access line hfirst hsecond
  exact hraised id access line ((hleft.raises_iff hnative).mpr hfirst)
    ((hright.raises_iff hnative).mpr hsecond)

theorem after (hrule : setting.lookup = .resolved) (hnatives : setting.NativesSeeOutlines)
    (h : machine.InStep r fits raised other)
    (hraised : ∀ id access line, machine.Fails setting ⟨id, r.old, access⟩ line →
      other.Fails setting ⟨id, r.new, access⟩ line → raised line) (n : Nat) :
    (machine.after setting n).InStep r fits raised (other.after setting n) := by
  induction n with
  | zero => exact h
  | succ n ih =>
    rw [after_succ, after_succ]
    exact ih.step hrule hnatives fun id access line hfirst hsecond =>
      hraised id access line ⟨n, hfirst⟩ ⟨n, hsecond⟩

theorem raises (hrule : setting.lookup = .resolved) (hnative : setting.NativesMakeNoFunctions)
    (h : machine.InStep r fits raised other) (hraises : machine.Raises setting reference line) :
    ∃ place, other.Raises setting (reference.mapName (r.reference place)) line := by
  obtain ⟨live, reached, middle, middle', hleft, hright, haligned⟩ := h
  obtain ⟨place, hother⟩ := haligned.raises hrule ((hleft.raises_iff hnative).mp hraises)
  exact ⟨place, (hright.raises_iff hnative).mpr hother⟩

theorem atRest_eq (h : machine.InStep r fits raised other) : other.atRest = machine.atRest := by
  obtain ⟨live, reached, middle, middle', hleft, hright, haligned⟩ := h
  rw [atRest, atRest, hleft.control_eq, hleft.frames_eq, hright.control_eq, hright.frames_eq]
  obtain ⟨places, place, -, hcontrol, hframes, -⟩ := haligned
  revert hcontrol hframes
  generalize middle.control = control
  generalize middle'.control = control'
  generalize middle.frames = frames
  generalize middle'.frames = frames'
  intro hcontrol hframes
  cases hcontrol <;> cases hframes <;> rfl

theorem effects_eq (h : machine.InStep r fits raised other) :
    other.state.effects.map Effect.outline = machine.state.effects.map Effect.outline := by
  obtain ⟨live, reached, middle, middle', hleft, hright, haligned⟩ := h
  obtain ⟨places, place, -, -, -, hstate⟩ := haligned
  have hmiddle : middle.state.effects = machine.state.effects := by rw [hleft.state.outside]
  have hother : middle'.state.effects = other.state.effects := by rw [hright.state.outside]
  rw [← hmiddle, ← hother, hstate.effects]

theorem sink_eq (h : machine.InStep r fits raised other) :
    other.state.sink = machine.state.sink := by
  obtain ⟨live, reached, middle, middle', hleft, hright, haligned⟩ := h
  obtain ⟨places, place, -, -, -, hstate⟩ := haligned
  have hmiddle : middle.state.sink = machine.state.sink := by rw [hleft.state.outside]
  have hother : middle'.state.sink = other.state.sink := by rw [hright.state.outside]
  rw [← hmiddle, ← hother, hstate.outside]

/-- How the machines at rest have ended. -/
theorem outcome_cases (h : machine.InStep r fits raised other) (flushFails : Bool) :
    Interpreter.outcome other.control flushFails = Interpreter.outcome machine.control flushFails ∨
      ∃ line, raised line ∧
        Interpreter.outcome machine.control flushFails =
          .error ⟨.undefinedVariable r.old, line⟩ ∧
        Interpreter.outcome other.control flushFails =
          .error ⟨.undefinedVariable r.new, line⟩ := by
  obtain ⟨live, reached, middle, middle', hleft, hright, haligned⟩ := h
  rw [hleft.control_eq, hright.control_eq]
  obtain ⟨places, place, -, hcontrol, -, -⟩ := haligned
  revert hcontrol
  generalize middle.control = control
  generalize middle'.control = control'
  intro hcontrol
  cases hcontrol with
  | renamed hline => exact .inr ⟨_, hline, rfl, rfl⟩
  | _ => exact .inl rfl

end InStep

end Machine

/-! ## Runs -/

/-- The machines end with the same result, and a reference that fails in one of them fails
under the same name in the other; or the same node has failed, under the name that it has in
each of the programs. -/
inductive SameResult (setting : Setting) (old new : String) (machine other : Machine) :
    (result result' : Except (Located RuntimeFault) Status) → Prop where
  | same {result : Except (Located RuntimeFault) Status} :
      (∀ reference line, machine.Fails setting reference line →
        other.Fails setting reference line) →
      SameResult setting old new machine other result result
  | renamed {id : NodeId} {access : Access} {line : Nat} :
      machine.Fails setting ⟨id, old, access⟩ line → other.Fails setting ⟨id, new, access⟩ line →
      SameResult setting old new machine other (.error ⟨.undefinedVariable old, line⟩)
        (.error ⟨.undefinedVariable new, line⟩)

/-- Runs that end the same way, with the same output and the same commands. -/
structure SameRun (setting : Setting) (old new : String) (machine other : Machine)
    (left right : Except (Located RuntimeFault) Status × Interpreter) : Prop where
  result : SameResult setting old new machine other left.1 right.1
  effects : right.2.effects.map Effect.outline = left.2.effects.map Effect.outline
  sink : right.2.sink = left.2.sink

section Runs

variable {setting : Setting} {r : Renaming} {fits : Reference → Prop} {machine other : Machine}

/-- The node of a reference that has failed under the old name in one machine and under the new
name in the other. -/
def Renaming.RaisedIn (r : Renaming) (setting : Setting) (machine other : Machine) (line : Nat) :
    Prop :=
  ∃ id access, machine.Fails setting ⟨id, r.old, access⟩ line ∧
    other.Fails setting ⟨id, r.new, access⟩ line

theorem Machine.InStep.after_raised (hrule : setting.lookup = .resolved)
    (hnatives : setting.NativesSeeOutlines)
    (h : machine.InStep r fits (r.RaisedIn setting machine other) other) (n : Nat) :
    (machine.after setting n).InStep r fits (r.RaisedIn setting machine other)
      (other.after setting n) :=
  h.after hrule hnatives (fun id access _ hfirst hsecond => ⟨id, access, hfirst, hsecond⟩) n

/-- Runs of machines in step end the same way. -/
theorem Machine.InStep.sameResult (hrule : setting.lookup = .resolved)
    (hnatives : setting.NativesSeeOutlines)
    (h : machine.InStep r fits (r.RaisedIn setting machine other) other) {budget : Nat}
    (hrest : (machine.after setting budget).atRest = true) (flushFails : Bool) :
    SameResult setting r.old r.new machine other
      (Interpreter.outcome (machine.after setting budget).control flushFails)
      (Interpreter.outcome (other.after setting budget).control flushFails) := by
  have hend := h.after_raised hrule hnatives budget
  rcases hend.outcome_cases flushFails with
    hsame | ⟨line, ⟨id, access, hfirst, hsecond⟩, hold, hnew⟩
  · rw [hsame]
    refine .same fun reference line hfails => ?_
    obtain ⟨n, hraises⟩ := hfails
    obtain ⟨place, hother⟩ :=
      (h.after_raised hrule hnatives n).raises hrule hnatives.makeNoFunctions hraises
    -- both faults are the same, so the reference has the same name in both programs
    have hleft := Machine.Fails.control_eq ⟨n, hraises⟩ hrest
    have hright := Machine.Fails.control_eq ⟨n, hother⟩ (hend.atRest_eq.trans hrest)
    rw [hleft, hright] at hsame
    injection hsame with hfault
    injection hfault with hcause _
    injection hcause with hname
    have hmapped : reference.mapName (r.reference place) = reference := by
      obtain ⟨id, name, access⟩ := reference
      exact congrArg (Reference.mk id · access) hname
    exact ⟨n, hmapped ▸ hother⟩
  · rw [hold, hnew]
    exact .renamed hfirst hsecond

/-- Programs that are started in step have the same runs. -/
theorem Interpreter.interpret_rel (hrule : setting.lookup = .resolved)
    (hnatives : setting.NativesSeeOutlines) {state : Interpreter} {program renamed : List Stmt}
    (h : (state.start program).InStep r fits
      (r.RaisedIn setting (state.start program) (state.start renamed)) (state.start renamed))
    (budget : Nat) :
    Option.Rel (SameRun setting r.old r.new (state.start program) (state.start renamed))
      (state.interpret setting budget program) (state.interpret setting budget renamed) := by
  have hend := h.after_raised hrule hnatives budget
  have hkept : ∀ final : Interpreter, (final.collectAtEnd setting).effects = final.effects ∧
      (final.collectAtEnd setting).sink = final.sink := fun final => by
    rw [collectAtEnd_eq]
    exact ⟨rfl, rfl⟩
  rw [interpret, interpret, Machine.run_eq_ite, Machine.run_eq_ite, hend.atRest_eq]
  split
  · rename_i hrest
    refine .some ⟨?_, ?_, ?_⟩
    · simp only [hend.sink_eq]
      exact h.sameResult hrule hnatives hrest _
    · simp only [(hkept _).1]
      exact hend.effects_eq
    · simp only [(hkept _).2]
      exact hend.sink_eq
  · exact .none

end Runs

/-! ## Accepted programs -/

section Start

variable {r : Renaming} {fits : Reference → Prop} {raised : Nat → Prop} {layout : Layout}

/-- No scope is an instance of the renamed one before the program runs. -/
theorem Layout.Sound.aligned {state : Interpreter} (h : layout.Sound state.scopes)
    (hglobals : state.globals = layout.globals)
    (hlinked : ∀ reference, fits reference →
      state.distances[reference.id]? = r.recorded reference.id) :
    state.Aligned r fits (List.replicate state.scopes.nextId none) state := by
  refine ⟨rfl, rfl, Scopes.aligned_refl fun id name value hvalue closure hclosure => ?_,
    ?_, hlinked⟩
  · have hadmits := (h.bindings id name value (Scopes.binds_of_local? hvalue)).1
    cases value with
    | function decl held identity =>
      obtain rfl := Option.some.inj hclosure
      obtain ⟨context, hfits, -⟩ := hadmits
      exact hfits.lt h
    | _ => cases hclosure
  · rw [List.getElem?_replicate, if_pos (hglobals ▸ h.lt)]

theorem Interpreter.aligned_start {state : Interpreter} {places : ScopePlaces}
    (h : state.Aligned r fits places state) (hcurrent : state.current = state.globals)
    {program renamed : List Stmt} (hprogram : Stmt.AlignedAll r fits none program renamed) :
    (state.start program).Aligned r fits raised (state.start renamed) := by
  have hhere : places[state.current]? = some none := hcurrent ▸ h.globals
  cases hprogram with
  | nil => exact ⟨places, none, hhere, .done, .nil, h⟩
  | cons hstmt hrest => exact ⟨places, none, hhere, .exec hstmt, .cons (.program hrest) .nil, h⟩

end Start

namespace Session

variable {setting : Setting} {session : Session} {source : String} {program renamed : List Stmt}
  {distances : List (NodeId × Nat)} {old new : String}

/-- The table gives each reference of the program the distance that resolution recorded. -/
theorem Tracked.found {chronicle : Chronicle} (h : session.Tracked chronicle)
    (hsmall : chronicle.handedOut + session.idsDrawn (.run source 0) < 2 ^ 32)
    (haccepted : session.accepted? source = some (program, distances)) :
    ∀ reference ∈ Stmt.referencesAll program,
      (session.interpreter.addDistances distances).distances[reference.id]? =
        distances.lookup reference.id := by
  have hdrawn := h.drawn hsmall haccepted
  obtain ⟨-, rfl, -⟩ := accepted?_spec haccepted
  have hdistinct := hdrawn.distinctIds (Stmt.filterMap_referenceAll? program .top)
  intro reference hmem
  rw [← Stmt.filterMap_referenceAll? program .top] at hmem
  obtain ⟨⟨context, use⟩, hoccurrence, hreference⟩ := List.mem_filterMap.mp hmem
  match use, hreference with
  | .mention _, rfl =>
    refine (getElem?_insertMany_recorded hdistinct hoccurrence ?_).trans
      (lookup_recorded hdistinct hoccurrence).symm
    -- ids in the table were handed out before
    refine Option.eq_none_iff_forall_ne_some.mpr fun distance hfound => ?_
    exact absurd (h.interpreter.keys hfound)
      (Nat.not_lt.mpr (hdrawn.occurrence hoccurrence rfl).1)

/-- The program and its renaming are started in step. -/
theorem Tracked.inStep {chronicle : Chronicle} (h : session.Tracked chronicle)
    (hsmall : chronicle.handedOut + session.idsDrawn (.run source 0) < 2 ^ 32)
    (haccepted : session.accepted? source = some (program, distances))
    (hrenamed : Stmt.RenamesIn ⟨old, new, fun id => distances.lookup id⟩ program renamed)
    (hfresh : new ∉ Stmt.namesAll program) (raised : Nat → Prop) :
    ∃ fits, ((session.interpreter.addDistances distances).start program).InStep
      ⟨old, new, fun id => distances.lookup id⟩ fits raised
      ((session.interpreter.addDistances distances).start renamed) := by
  have hfound := h.found hsmall haccepted
  obtain ⟨live, twin, layout, hagree, hcovers, hcurrent⟩ := h.interpreter
  have hadded := hagree.addDistances distances
  have htable : (twin.addDistances distances).distances =
      (session.interpreter.addDistances distances).distances := by rw [hadded.outside]
  have hhome : (twin.addDistances distances).current = (twin.addDistances distances).globals := by
    rw [hadded.outside]
    exact hcurrent
  refine ⟨fun reference => (twin.addDistances distances).distances[reference.id]? =
      distances.lookup reference.id, live, live, _, _,
    Machine.agreeOn_start hadded program, Machine.agreeOn_start hadded renamed, ?_⟩
  have hstore : layout.Sound (twin.addDistances distances).scopes := hcovers.store
  refine Interpreter.aligned_start (hstore.aligned hcovers.globals fun _ => id) hhome
    (hrenamed.aligned (accepted?_spec haccepted).1 hfresh fun reference hmem => ?_)
  rw [htable]
  exact hfound reference hmem

/-- If a variable or parameter that an accepted program declares in a block or function gets a
name that does not occur in the program, together with the references that are bound to it,
then the program is accepted with the same distances. In any session it writes the same output
and sends the same commands, and it ends the same way; but if a reference fails that was
renamed, the fault has the new name. -/
theorem local_names_irrelevant (hrule : setting.lookup = .resolved)
    (hnatives : setting.NativesSeeOutlines) (sink : Sink) (actions : List HostAction)
    (hfinished : ((initial setting sink).serve setting actions).2 = .finished session)
    (hids : (initial setting sink).handedOut setting actions +
      session.idsDrawn (.run source 0) < 2 ^ 32)
    (haccepted : session.accepted? source = some (program, distances))
    (hrenamed : Stmt.RenamesIn ⟨old, new, fun id => distances.lookup id⟩ program renamed)
    (hfresh : new ∉ Stmt.namesAll program) :
    CommandScript.resolve renamed = .ok distances ∧
      ∀ budget,
        let state := session.interpreter.addDistances distances
        Option.Rel (SameRun setting old new (state.start program) (state.start renamed))
          (state.interpret setting budget program) (state.interpret setting budget renamed) := by
  have htracked := tracked_of_finished hnatives.makeNoFunctions hfinished
    (Nat.lt_of_le_of_lt (Nat.le_add_right _ _) hids)
  refine ⟨?_, fun budget => ?_⟩
  · have hdrawn := htracked.drawn hids haccepted
    obtain ⟨hprogram, hdistances, -⟩ := accepted?_spec haccepted
    have hdistinct := hdrawn.distinctIds (Stmt.filterMap_referenceAll? program .top)
    rw [hrenamed.resolve_eq hprogram hfresh (Renaming.knows_of_lookup hdistinct hdistances),
      hdistances]
  · obtain ⟨fits, hstep⟩ := htracked.inStep hids haccepted hrenamed hfresh _
    exact Interpreter.interpret_rel hrule hnatives hstep budget

/-- A parameter that is assigned in a block and read in the body of its function. -/
theorem local_names_irrelevant_of_parameter :
    let setting : Setting := ⟨.resolved, some 1, fun _ _ _ => .ok .null⟩
    let actions : List HostAction := [.define "title" (.string "dear ") rfl]
    let session := { initial setting .unlimited with
      interpreter := (initial setting .unlimited).interpreter.define 0 "title" (.string "dear ") }
    let source := "fun greet(name) { { name = title + name; } return name; } print greet(title);"
    let distances : List (NodeId × Nat) := [(2, 1), (0, 1), (3, 0), (4, 0)]
    let program (name : String) : List Stmt :=
      [.function "greet" [⟨name, 1⟩]
        [.block [.expression (.assign 0 name (.binary .add (.variable 1 "title" 1)
          (.variable 2 name 1) 1) 1) 1],
          .return (some (.variable 3 name 1)) 1] 1,
        .print (.call (.variable 4 "greet" 1) [.variable 5 "title" 1] 1) 1]
    setting.NativesSeeOutlines ∧
      ((initial setting .unlimited).serve setting actions).2 = .finished session ∧
      session.accepted? source = some (program "name", distances) ∧
      Stmt.RenamesIn ⟨"name", "guest", fun id => distances.lookup id⟩ (program "name")
        (program "guest") ∧
      "guest" ∉ Stmt.namesAll (program "name") ∧
      CommandScript.resolve (program "guest") = .ok distances ∧
      ∀ budget,
        let state := session.interpreter.addDistances distances
        Option.Rel (SameRun setting "name" "guest" (state.start (program "name"))
            (state.start (program "guest")))
          (state.interpret setting budget (program "name"))
          (state.interpret setting budget (program "guest")) := by
  intro setting actions session source distances program
  have hnatives : setting.NativesSeeOutlines := fun _ _ _ _ _ => .plain rfl
  have hfinished : ((initial setting .unlimited).serve setting actions).2 = .finished session := rfl
  have hids : (initial setting .unlimited).handedOut setting actions +
      session.idsDrawn (.run source 0) < 2 ^ 32 := by
    rw [handedOut_singleton]
    decide +kernel
  have haccepted : session.accepted? source = some (program "name", distances) := by
    decide +kernel
  have hrenamed : Stmt.RenamesIn ⟨"name", "guest", fun id => distances.lookup id⟩ (program "name")
      (program "guest") :=
    @Stmt.RenamesIn.at _ [] _ _ _ (.function (.inl List.mem_cons_self))
  have hfresh : "guest" ∉ Stmt.namesAll (program "name") := by decide
  exact ⟨hnatives, hfinished, haccepted, hrenamed, hfresh,
    local_names_irrelevant rfl hnatives .unlimited actions hfinished hids haccepted hrenamed hfresh⟩

end Session

end CommandScript
