import CommandScript.Proofs.Machine.Pieces
import CommandScript.Proofs.Session.Joining
import Mathlib.Algebra.Group.Nat.Defs

/-!
# A source in two pieces

A session that runs one source and then another does the same as one that runs both joined
by a line break. While the first source runs, the names that it declares at the top have no
recorded distance in one session and may have one in the other; but they are found in the
global scope in both. When it has ended, one session collects scopes and reads the second
source; the other goes on with the same statements, on lines further down. From there on
the machines are alike.

* `Session.SameEnd`: runs that end the same way, up to lines.
* `Session.Tracked.sameTargets`: a table that serves a run without being its own.
* `Session.run_of_stopped`, `Session.run_of_ended`: how the run of the first source leads
  into that of both.
* `Session.run_in_pieces`: running a source in two pieces.
-/

namespace CommandScript

open Std (HashMap)

namespace Session

/-- The runs of a source in two pieces and as a whole end the same way. -/
structure SameEnd (split whole : Except (List (Located Fault)) Status × Session) : Prop where
  /-- The same status, or the same faults up to their lines. -/
  result : split.1.mapError (·.map Located.unlined) = whole.1.mapError (·.map Located.unlined)
  /-- The same output, and the same commands for the same modules. -/
  effects : split.2.interpreter.effects.map Effect.unlined =
    whole.2.interpreter.effects.map Effect.unlined
  bindings : split.2.interpreter.unlined.SameGlobals whole.2.interpreter.unlined

variable {setting : Setting} {session : Session}

/-! ## The table of a run -/

/-- A table that has the same for all earlier ids and serves the program of the run finds
the same scopes. -/
theorem Tracked.sameTargets {count : Nat} (h : session.Tracked (.counting count))
    (hrule : setting.lookup = .resolved) (hnative : setting.NativesMakeNoFunctions)
    {source : String} (hsmall : count + session.idsDrawn (.run source 0) < 2 ^ 32)
    {program : List Stmt} {distances : List (NodeId × Nat)}
    (haccepted : session.accepted? source = some (program, distances))
    {table : HashMap NodeId Nat}
    (hsame : ∀ id : NodeId, id.toNat < count → table[id]? = session.interpreter.distances[id]?)
    (hfound : ∀ occurrence ∈ Stmt.occurrencesAll program .top, occurrence.FoundBy table)
    (n : Nat) :
    (((session.interpreter.addDistances distances).start program).after setting
      n).SameTargets setting.lookup table := by
  have htracked : session.Tracked
      { Chronicle.counting count with accepted := Occurrence.FoundBy table } :=
    ⟨h.nextId, h.interpreter.foundBy hsame⟩
  have hlaunch : session.launch source =
      some ((session.interpreter.addDistances distances).start program) := by
    rw [Session.launch, haccepted]
    rfl
  have hprograms : ∀ known ∈ session.programsOf (.run source 0),
      ∀ occurrence ∈ Stmt.occurrencesAll known .top, occurrence.FoundBy table := by
    intro known hknown
    rw [programsOf, haccepted] at hknown
    obtain rfl := List.mem_singleton.mp hknown
    exact hfound
  have hmachine := htracked.launch hsmall hprograms hlaunch
  rw [hrule]
  exact (hmachine.after hnative fun _ _ _ _ => trivial).sameTargets fun _ => id

/-! ## Runs and their ends -/

theorem run_of_accepted {source : String} {program : List Stmt} {distances : List (NodeId × Nat)}
    (h : session.accepted? source = some (program, distances)) (budget : Nat) :
    session.run setting budget source =
      (((session.interpreter.addDistances distances).start program).run setting budget).map
        ((session.afterReading source).settle setting) := by
  refine run_of_launch ?_ budget
  rw [launch, h]
  rfl

section Settle

variable (final : Machine)

theorem settle_result (hclean : session.diagnostics = .empty) :
    (session.settle setting final).1 =
      (Interpreter.outcome final.control final.state.sink.flushFails).mapError
        fun fault => [fault.map Fault.runtime] := by
  unfold settle reject
  dsimp only
  rw [hclean]
  split <;> rename_i houtcome <;> rw [houtcome] <;> rfl

theorem settle_interpreter :
    (session.settle setting final).2.interpreter = final.state.collectAtEnd setting := by
  unfold settle
  dsimp only
  split <;> rfl

theorem settle_reads :
    (session.settle setting final).2.words = session.words ∧
      (session.settle setting final).2.mode = session.mode ∧
      (session.settle setting final).2.nextId = session.nextId := by
  unfold settle
  dsimp only
  split <;> exact ⟨rfl, rfl, rfl⟩

end Settle

/-- Machines at rest that are alike but for the table end their runs the same way. -/
theorem sameEnd_settle {other : Session} {left right : Machine} {table : HashMap NodeId Nat}
    (h : (left.extended [] table).Alike right)
    (hclean : session.diagnostics = .empty) (hclean' : other.diagnostics = .empty) :
    SameEnd (session.settle setting left) (other.settle setting right) where
  result := by
    have hrename : ∀ outcome : Except (Located RuntimeFault) Status,
        (outcome.mapError fun fault => [fault.map Fault.runtime]).mapError
            (·.map Located.unlined) =
          (outcome.mapError Located.unlined).mapError fun fault => [fault.map Fault.runtime] := by
      intro outcome
      cases outcome <;> rfl
    have hcontrol : left.control.unlined = right.control.unlined := h.control_eq
    have hsink : left.state.sink = right.state.sink := h.sink_eq
    rw [settle_result left hclean, settle_result right hclean', hrename, hrename,
      Interpreter.outcome_unlined, Interpreter.outcome_unlined, hcontrol, hsink]
  effects := by
    rw [settle_interpreter, settle_interpreter, Interpreter.collectAtEnd_eq,
      Interpreter.collectAtEnd_eq setting right.state]
    exact h.effects_eq
  bindings := by
    have hglobals := h.sameGlobals setting
    rw [Machine.extended, Interpreter.withTable_collectAtEnd] at hglobals
    rw [settle_interpreter, settle_interpreter]
    exact hglobals

/-! ## Two pieces -/

namespace Parts

variable {first second : String} {program program' : List Stmt} {down : Nat → Nat}

/-- The table of the joined source. -/
def table (session : Session) (program program' : List Stmt) (down : Nat → Nat) :
    HashMap NodeId Nat :=
  joinedTable session.interpreter.distances program
    (Stmt.occurrencesBehind program (Stmt.mapLinesAll down program'))

/-- The machine that is about to run a program. -/
def launched (session : Session) (program : List Stmt) : Machine :=
  (session.interpreter.addDistances
    ((Stmt.occurrencesAll program .top).filterMap Occurrence.recorded?)).start program

/-- The machine that is about to run the joined source. -/
def launchedBoth (session : Session) (program program' : List Stmt) (down : Nat → Nat) : Machine :=
  ((session.interpreter.addDistances
    ((Stmt.occurrencesAll program .top).filterMap Occurrence.recorded?)).withTable
      (table session program program' down)).start (program ++ Stmt.mapLinesAll down program')

theorem run_first (h : session.Parts first second program program' down) (budget : Nat) :
    session.run setting budget first =
      ((launched session program).run setting budget).map
        ((session.afterReading first).settle setting) :=
  run_of_accepted h.acceptedFirst budget

theorem run_both (h : session.Parts first second program program' down) (budget : Nat) :
    session.run setting budget (first ++ "\n" ++ second) =
      ((launchedBoth session program program' down).run setting budget).map
        ((session.afterReading (first ++ "\n" ++ second)).settle setting) := by
  rw [run_of_accepted h.acceptedJoined budget, Interpreter.addDistances_joined]
  rfl

section First

variable {budget : Nat} {result : Except (List (Located Fault)) Status} {middle : Session}

/-- What is known about a run of the first source that has ended. -/
theorem settled_first (h : session.Parts first second program program' down)
    (hrun : session.run setting budget first = some (result, middle)) :
    result = (Interpreter.outcome ((launched session program).after setting budget).control
        ((launched session program).after setting budget).state.sink.flushFails).mapError
          (fun fault => [fault.map Fault.runtime]) ∧
      middle.interpreter =
        ((launched session program).after setting budget).state.collectAtEnd setting ∧
      middle.words = (session.afterReading first).words ∧
      middle.mode = (session.afterReading first).mode ∧
      middle.nextId = (session.afterReading first).nextId := by
  rw [h.run_first] at hrun
  obtain ⟨final, hfinal, hsettled⟩ := Option.map_eq_some_iff.mp hrun
  obtain ⟨rfl, -⟩ := Machine.run_eq_some_iff.mp hfinal
  obtain rfl : _ = result := congrArg Prod.fst hsettled
  obtain rfl : _ = middle := congrArg Prod.snd hsettled
  exact ⟨settle_result _ h.reportedFirst, settle_interpreter _, settle_reads _⟩

/-- The second source is accepted in every session that has read the first one. -/
theorem accepted_second (h : session.Parts first second program program' down)
    (hrun : session.run setting budget first = some (result, middle)) :
    middle.accepted? second =
        some (program', (Stmt.occurrencesAll program' .top).filterMap Occurrence.recorded?) ∧
      (middle.afterReading second).diagnostics = .empty ∧
      middle.idsDrawn (.run second 0) =
        (session.afterReading first).idsDrawn (.run second 0) := by
  obtain ⟨-, -, hwords, hmode, hnextId⟩ := h.settled_first hrun
  refine ⟨?_, ?_, ?_⟩
  · rw [accepted?_congr hwords hmode hnextId, h.acceptedSecond]
  · rw [(read_congr hwords hmode hnextId second).2, h.reportedSecond]
  · simp only [Session.idsDrawn, hwords, hmode, hnextId]

/-- The first run ends before its program does. Then the run of both ends there, too. -/
theorem run_of_halted (h : session.Parts first second program program' down) {halt : Halt}
    {final : Interpreter}
    (hbefore : (launched session program).after setting budget = ⟨.halting halt, [], final⟩)
    (hwhole : (launchedBoth session program program' down).after setting budget =
      ⟨.halting halt, [], final.withTable (table session program program' down)⟩)
    (hrun : session.run setting budget first = some (result, middle)) :
    result ≠ .ok .completed ∧ ∃ whole,
      session.run setting budget (first ++ "\n" ++ second) = some (result, whole) ∧
        whole.interpreter.effects = middle.interpreter.effects := by
  obtain ⟨hresult, hinterpreter, -⟩ := h.settled_first hrun
  rw [hbefore] at hresult hinterpreter
  have hboth : session.run setting budget (first ++ "\n" ++ second) = _ := h.run_both budget
  rw [Machine.run_eq_some_iff.mpr ⟨hwhole, rfl⟩, Option.map_some] at hboth
  have hsame : (settle setting (session.afterReading (first ++ "\n" ++ second)) _).1 = _ :=
    settle_result ⟨.halting halt, [], final.withTable (table session program program' down)⟩
      h.reportedJoined
  refine ⟨?_, _, hboth.trans (congrArg some (Prod.ext (hsame.trans hresult.symm) rfl)), ?_⟩
  · rw [hresult]
    cases halt with
    | fault found => exact nofun
    | exit code => cases final.sink.flushFails <;> exact nofun
  · rw [settle_interpreter, hinterpreter, Interpreter.withTable_collectAtEnd]
    rfl

end First

section Runs

variable {count : Nat} (h : session.Parts first second program program' down)
  (hrule : setting.lookup = .resolved) (hnative : setting.NativesMakeNoFunctions)
  (htracked : session.Tracked (.counting count))
  (hsmall : count + session.idsDrawn (.run (first ++ "\n" ++ second) 0) < 2 ^ 32)

include h htracked hsmall

theorem drawn :
    Layout.Drawn program count (session.idsDrawn (.run first 0)) ∧
      Layout.Drawn program' (count + session.idsDrawn (.run first 0))
        ((session.afterReading first).idsDrawn (.run second 0)) := by
  rw [h.idsDrawn, ← Nat.add_assoc] at hsmall
  have hread : (session.afterReading first).Tracked
      (.counting (count + session.idsDrawn (.run first 0))) := htracked.read first 0
  exact ⟨htracked.drawn (Nat.lt_of_le_of_lt (Nat.le_add_right _ _) hsmall) h.acceptedFirst,
    hread.drawn hsmall h.acceptedSecond⟩

include hrule hnative

/-- How far the run of both programs has come when that of the first one has come so far. -/
theorem ahead (n : Nat) :
    Interpreter.Ahead setting (table session program program' down)
      (Stmt.mapLinesAll down program') (launched session program)
      (launchedBoth session program program' down) n := by
  obtain ⟨hfirst, hsecond⟩ := h.drawn htracked hsmall
  obtain ⟨earlier, hover⟩ := h.paired
  rw [h.idsDrawn, ← Nat.add_assoc] at hsmall
  refine Interpreter.start_append fun k _ => ?_
  refine htracked.sameTargets hrule hnative (Nat.lt_of_le_of_lt (Nat.le_add_right _ _) hsmall)
    h.acceptedFirst (fun id hid => ?_) ?_ k
  · exact getElem?_joinedTable_earlier hsecond hover hfirst hid
  · exact foundBy_joinedTable_first hsecond hover hfirst fun _ _ => htracked.interpreter.keys

/-- From the end of the first program on, the machines for the second one are alike. -/
theorem alike_rest {k : Nat} {final : Interpreter} {middle : Session}
    (hlines : setting.NativesOnlyReportLines)
    (hbefore : (launched session program).after setting k = ⟨.done, [], final⟩)
    (hmiddle : middle.Tracked (.counting (count + session.idsDrawn (.run first 0))))
    (hinterpreter : middle.interpreter = final.collectAtEnd setting)
    (haccepted : middle.accepted? second =
      some (program', (Stmt.occurrencesAll program' .top).filterMap Occurrence.recorded?))
    (hids : middle.idsDrawn (.run second 0) =
      (session.afterReading first).idsDrawn (.run second 0))
    (n : Nat) :
    (((launched middle program').after setting n).extended []
        (table session program program' down)).Alike
      (((final.withTable (table session program program' down)).start
        (Stmt.mapLinesAll down program')).after setting n) := by
  obtain ⟨hfirst, hsecond⟩ := h.drawn htracked hsmall
  obtain ⟨earlier, hover⟩ := h.paired
  rw [h.idsDrawn, ← Nat.add_assoc] at hsmall
  have hdistances : final.distances = session.interpreter.distances.insertMany
      ((Stmt.occurrencesAll program .top).filterMap Occurrence.recorded?) := by
    have hkept := (Machine.conserves_after setting k (launched session program)).distances
    rw [hbefore] at hkept
    refine hkept.trans ?_
    cases program <;> rfl
  have hcollected : middle.interpreter.distances = final.distances := by
    rw [hinterpreter, Interpreter.collectAtEnd_eq]
  -- the table of the joined source serves the second program
  have hserves : ∀ n, ((launched middle program').after setting n).SameTargets setting.lookup
      (table session program program' down) := by
    refine hmiddle.sameTargets hrule hnative ?_ haccepted (fun id hid => ?_) ?_
    · rw [hids]
      exact hsmall
    · rw [hcollected, hdistances]
      exact getElem?_joinedTable hsecond hover hid
    · exact foundBy_joinedTable_second hsecond hover hfirst fun _ _ => htracked.interpreter.keys
  -- the collection in between leaves the scopes in use as they are
  have hmachine : Machine.Tracked (.counting (count + session.idsDrawn (.run first 0)))
      ⟨.done, [], final⟩ := by
    have hlaunch : session.launch first = some (launched session program) := by
      rw [launch, h.acceptedFirst]
      rfl
    rw [← hbefore]
    exact (htracked.launch (Nat.lt_of_le_of_lt (Nat.le_add_right _ _) hsmall)
      (fun _ _ _ _ => trivial) hlaunch).after hnative fun _ _ _ _ => trivial
  obtain ⟨live, twin, layout, hagree, -, -⟩ := hmachine
  have hself : final.AgreeOn live final := hagree.state.refl_left
  obtain ⟨reached, hcollect⟩ := hself.collectAtEnd setting
  rw [← hinterpreter] at hcollect
  have hstart := Machine.alike_start (hcollect.withTable (table session program program' down))
    (hself.withTable (table session program program' down)) down program'
  rw [← Machine.after_extended_nil fun k _ => hserves k]
  refine Machine.Alike.after hnative hlines ?_ n
  have hextended : (launched middle program').extended [] (table session program program' down) =
      (middle.interpreter.withTable (table session program program' down)).start program' :=
    (Interpreter.withTable_start (middle.interpreter.addDistances _) _ program').symm
  rw [hextended]
  exact hstart

/-- The first program comes to its end. Then the run of both goes on with the second one. -/
theorem run_of_ended (hlines : setting.NativesOnlyReportLines) {budget k : Nat}
    {final : Interpreter} {result : Except (List (Located Fault)) Status} {middle : Session}
    (hk : k ≤ budget)
    (hbefore : (launched session program).after setting k = ⟨.done, [], final⟩)
    (hwhole : (launchedBoth session program program' down).after setting k =
      (final.withTable (table session program program' down)).start
        (Stmt.mapLinesAll down program'))
    (hflush : session.interpreter.sink.flushFails = false)
    (hrun : session.run setting budget first = some (result, middle)) :
    result = .ok .completed ∧ ∀ more,
      Option.Rel SameEnd (middle.run setting more second)
        (session.run setting (k + more) (first ++ "\n" ++ second)) := by
  obtain ⟨hresult, hinterpreter, -⟩ := h.settled_first hrun
  obtain ⟨haccepted, hclean, hids⟩ := h.accepted_second hrun
  have hrest : (launched session program).after setting budget = ⟨.done, [], final⟩ := by
    rw [← Nat.add_sub_cancel' hk, Machine.after_add, hbefore]
    exact Machine.after_of_atRest rfl _
  rw [hrest] at hresult hinterpreter
  have hunflushed : final.sink.flushFails = false := by
    have hkept := (Machine.conserves_after setting k (launched session program)).flushFails
    rw [hbefore] at hkept
    refine hkept.trans (Eq.trans ?_ hflush)
    cases program <;> rfl
  have hmiddle : middle.Tracked (.counting (count + session.idsDrawn (.run first 0))) := by
    have hact : session.act setting (.run first budget) = .ok (.ran result, middle) := by
      rw [act, hrun]
    rw [h.idsDrawn, ← Nat.add_assoc] at hsmall
    have hpart : count + session.idsDrawn (.run first budget) < 2 ^ 32 :=
      Nat.lt_of_le_of_lt (Nat.le_add_right _ _) hsmall
    exact htracked.act hnative hpart (fun _ _ _ _ => trivial) (fun _ _ _ _ => trivial) hact
  refine ⟨by rw [hresult, hunflushed]; rfl, fun more => ?_⟩
  have halike := h.alike_rest hrule hnative htracked hsmall hlines hbefore hmiddle hinterpreter
    haccepted hids more
  have hboth : (launchedBoth session program program' down).after setting (k + more) =
      ((final.withTable (table session program program' down)).start
        (Stmt.mapLinesAll down program')).after setting more := by
    rw [Machine.after_add, hwhole]
  rw [run_of_accepted haccepted, h.run_both, Machine.run_eq_ite, Machine.run_eq_ite, hboth]
  have hatRest := halike.atRest_eq
  rw [Machine.atRest_extended] at hatRest
  cases hright : (((final.withTable (table session program program' down)).start
      (Stmt.mapLinesAll down program')).after setting more).atRest with
  | true =>
    rw [hright, launched] at hatRest
    rw [if_pos hatRest, if_pos rfl]
    exact .some (sameEnd_settle halike hclean h.reportedJoined)
  | false =>
    rw [hright, launched] at hatRest
    rw [if_neg (by simp [hatRest]), if_neg (by simp)]
    exact .none

end Runs

end Parts

/-- **Running a source in two pieces.** In a session that a history has led to, let two
sources be read without faults one after the other, the first ending with a `;` or `}`, and
let both joined by a line break be accepted. Then each of them is accepted. If the run of
the first completes, the run of the second ends, some number of steps earlier, just as that
of the joined source does; if it ends in another way or does not end, so does the run of
the joined source. -/
theorem run_in_pieces {setting : Setting} (hrule : setting.lookup = .resolved)
    (hnative : setting.NativesMakeNoFunctions) (hlines : setting.NativesOnlyReportLines)
    (sink : Sink) (actions : List HostAction) {session : Session}
    (hfinished : ((initial setting sink).serve setting actions).2 = .finished session)
    (hflush : session.interpreter.sink.flushFails = false) {first second : String}
    (hids : (initial setting sink).handedOut setting actions +
      session.idsDrawn (.run (first ++ "\n" ++ second) 0) < 2 ^ 32)
    (hfirst : session.ReadsCleanly first)
    (hsecond : (session.afterReading first).ReadsCleanly second)
    (hcloses : session.Closes first)
    (haccepted : (session.accepted? (first ++ "\n" ++ second)).isSome) :
    (session.accepted? first).isSome ∧
    (∀ budget result middle, session.run setting budget first = some (result, middle) →
      (middle.accepted? second).isSome ∧
      (result = .ok .completed → ∃ steps, ∀ more,
        Option.Rel SameEnd (middle.run setting more second)
          (session.run setting (steps + more) (first ++ "\n" ++ second))) ∧
      (result ≠ .ok .completed → ∃ whole,
        session.run setting budget (first ++ "\n" ++ second) = some (result, whole) ∧
          whole.interpreter.effects = middle.interpreter.effects)) ∧
    (∀ budget, session.run setting budget first = none →
      session.run setting budget (first ++ "\n" ++ second) = none) := by
  obtain ⟨program, program', down, h⟩ := exists_parts hfirst hsecond hcloses haccepted
  have htracked := tracked_of_finished hnative hfinished
    (Nat.lt_of_le_of_lt (Nat.le_add_right _ _) hids)
  have hahead := h.ahead hrule hnative htracked hids
  refine ⟨by rw [h.acceptedFirst]; rfl, fun budget result middle hrun => ?_, fun budget hrun => ?_⟩
  · refine ⟨by rw [(h.accepted_second hrun).1]; rfl, ?_⟩
    cases hahead budget with
    | running _ hrooted _ =>
      rw [h.run_first, Machine.run_eq_ite, hrooted.atRest_eq] at hrun
      cases hrun
    | halted hbefore hwhole =>
      obtain ⟨hresult, hboth⟩ := h.run_of_halted hbefore hwhole hrun
      exact ⟨fun hcompleted => absurd hcompleted hresult, fun _ => hboth⟩
    | @ended k _ hk hbefore hwhole =>
      obtain ⟨hresult, hboth⟩ :=
        h.run_of_ended hrule hnative htracked hids hlines hk hbefore hwhole hflush hrun
      exact ⟨fun _ => ⟨k, hboth⟩, fun hother => absurd hresult hother⟩
  · rw [h.run_first, Option.map_eq_none_iff, Machine.run_eq_ite] at hrun
    have hatRest : ((Parts.launched session program).after setting budget).atRest = false :=
      Bool.eq_false_iff.mpr fun hrest => by rw [if_pos hrest] at hrun; cases hrun
    cases hahead budget with
    | running hwhole _ _ =>
      rw [h.run_both, Machine.run_eq_ite, hwhole, Machine.atRest_extended, hatRest]
      rfl
    | halted hbefore _ =>
      rw [hbefore] at hatRest
      cases hatRest
    | ended hk hbefore _ =>
      rw [← Nat.add_sub_cancel' hk, Machine.after_add, hbefore,
        Machine.after_of_atRest rfl] at hatRest
      cases hatRest

/-- A variable of the first source that a function of the second one reads. -/
theorem run_in_pieces_of_greeting :
    let setting : Setting := ⟨.resolved, some 1, fun _ _ _ => .ok .null⟩
    let actions : List HostAction := [.define "greeting" (.string "hello") rfl]
    let session := { initial setting .unlimited with
      interpreter := (initial setting .unlimited).interpreter.define 0 "greeting" (.string "hello") }
    let first := "var name = greeting; { name = name + 1; }"
    let second := "fun greet() { return name; } print greet();"
    setting.NativesMakeNoFunctions ∧ setting.NativesOnlyReportLines ∧
      ((initial setting .unlimited).serve setting actions).2 = .finished session ∧
      session.ReadsCleanly first ∧ (session.afterReading first).ReadsCleanly second ∧
      session.Closes first ∧ (session.accepted? (first ++ "\n" ++ second)).isSome ∧
      (session.accepted? first).isSome ∧
      (∀ budget result middle, session.run setting budget first = some (result, middle) →
        (middle.accepted? second).isSome ∧
        (result = .ok .completed → ∃ steps, ∀ more,
          Option.Rel SameEnd (middle.run setting more second)
            (session.run setting (steps + more) (first ++ "\n" ++ second))) ∧
        (result ≠ .ok .completed → ∃ whole,
          session.run setting budget (first ++ "\n" ++ second) = some (result, whole) ∧
            whole.interpreter.effects = middle.interpreter.effects)) ∧
      (∀ budget, session.run setting budget first = none →
        session.run setting budget (first ++ "\n" ++ second) = none) := by
  intro setting actions session first second
  have hnative : setting.NativesMakeNoFunctions := by
    intro native args line value h
    cases h
    exact .inl rfl
  have hlines : setting.NativesOnlyReportLines := fun _ _ _ => rfl
  have hfinished : ((initial setting .unlimited).serve setting actions).2 = .finished session := rfl
  have hids : (initial setting .unlimited).handedOut setting actions +
      session.idsDrawn (.run (first ++ "\n" ++ second) 0) < 2 ^ 32 := by
    rw [handedOut_singleton]
    decide +kernel
  have hfirst : session.ReadsCleanly first := by
    unfold ReadsCleanly
    decide +kernel
  have hsecond : (session.afterReading first).ReadsCleanly second := by
    unfold ReadsCleanly
    decide +kernel
  have hcloses : session.Closes first := by
    unfold Session.Closes
    decide +kernel
  have haccepted : (session.accepted? (first ++ "\n" ++ second)).isSome := by decide +kernel
  exact ⟨hnative, hlines, hfinished, hfirst, hsecond, hcloses, haccepted,
    run_in_pieces rfl hnative hlines .unlimited actions hfinished rfl hids hfirst hsecond hcloses
      haccepted⟩

end Session

end CommandScript
