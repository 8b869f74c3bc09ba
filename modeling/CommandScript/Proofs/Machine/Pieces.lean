import CommandScript.Proofs.Machine.Distances
import CommandScript.Proofs.Machine.Lines
import CommandScript.Proofs.Resolution.Earlier

/-!
# The rest of a program

The rest of a program may run after a collection of scopes, and with other lines. Both are
forgotten by going over to a machine that never collects and has no lines: two machines are
alike if they lead to the same machine there. Machines that are alike stay so, come to rest
at the same time, and have then done the same, with the same global bindings.

* `Interpreter.SameGlobals`: the same bindings wherever the global scope leads.
* `Machine.Alike`: machines that differ in collections and lines only.
* `Machine.Alike.after`: machines that are alike stay alike.
* `Interpreter.Tracked.foundBy`: a table that keeps what was recorded.
* `joinedTable`: the table after two programs that were resolved as one.
* `foundBy_joinedTable_first`, `foundBy_joinedTable_second`: it serves both programs.
-/

namespace CommandScript

open Std (HashMap)

/-! ## Stores and interpreters -/

/-- Stores that agree with a third one agree on what both have in use. -/
theorem Scopes.AgreeOn.meet {live reached : ScopeId → Prop} {left right middle : Scopes}
    (h : AgreeOn live left middle) (h' : AgreeOn reached right middle) :
    AgreeOn (fun id => live id ∧ reached id) left right where
  nextId_eq := h.nextId_eq.trans h'.nextId_eq.symm
  find_eq id hid := (h.find_eq id hid.1).trans (h'.find_eq id hid.2).symm
  lt_nextId id hid := h.lt_nextId id hid.1
  closed id hid linked hl := by
    refine ⟨h.closed id hid.1 linked hl, h'.closed id hid.2 linked ?_⟩
    rwa [links, ← (h.find_eq id hid.1).trans (h'.find_eq id hid.2).symm, ← links]

namespace Interpreter

/-- The same global scope, and the same bindings in every scope that it leads to. -/
def SameGlobals (left right : Interpreter) : Prop :=
  left.globals = right.globals ∧
    ∃ live, left.scopes.AgreeOn live right.scopes ∧ live left.globals

/-- Agreement holds on the left alone. -/
theorem AgreeOn.refl_left {live : ScopeId → Prop} {left right : Interpreter}
    (h : AgreeOn live left right) : AgreeOn live left left where
  outside := rfl
  scopes := ⟨rfl, fun _ _ => rfl, h.scopes.lt_nextId, h.scopes.closed⟩
  globals := h.globals
  current := h.current

theorem AgreeOn.withTable {live : ScopeId → Prop} {left right : Interpreter}
    (h : AgreeOn live left right) (table : HashMap NodeId Nat) :
    AgreeOn live (left.withTable table) (right.withTable table) := by
  obtain ⟨outside, hs, hg, hc⟩ := h
  rw [outside]
  exact ⟨rfl, hs, hg, hc⟩

theorem sameGlobals_of_agreeOn {live reached : ScopeId → Prop}
    {left right middle other : Interpreter} (h : left.AgreeOn live middle)
    (h' : right.AgreeOn reached other) (hsame : middle.unlined = other.unlined) :
    left.unlined.SameGlobals right.unlined := by
  have hglobals : left.globals = right.globals := by
    have hmiddle : middle.globals = left.globals := by rw [h.outside]
    have hother : other.globals = right.globals := by rw [h'.outside]
    have hboth : middle.unlined.globals = other.unlined.globals := congrArg globals hsame
    exact hmiddle.symm.trans (hboth.trans hother)
  have hscopes : other.scopes.unlined = middle.scopes.unlined := congrArg scopes hsame.symm
  have hright := h'.scopes.unlined
  rw [hscopes] at hright
  exact ⟨hglobals, _, h.scopes.unlined.meet hright, h.globals, hglobals ▸ h'.globals⟩

theorem withTable_collectAtEnd (setting : Setting) (state : Interpreter)
    (table : HashMap NodeId Nat) :
    (state.withTable table).collectAtEnd setting =
      (state.collectAtEnd setting).withTable table := by
  unfold collectAtEnd
  cases setting.collectFrom with
  | none => rfl
  | some minimum =>
    by_cases hempty : state.captured.handles.isEmpty = true
    · dsimp only
      rw [if_pos hempty]
      exact if_pos hempty
    · dsimp only
      rw [if_neg hempty]
      exact if_neg hempty

theorem withTable_start (state : Interpreter) (table : HashMap NodeId Nat) (program : List Stmt) :
    (state.withTable table).start program = (state.start program).extended [] table := by
  cases program with
  | nil => rfl
  | cons stmt rest =>
    show Machine.mk _ [.program rest] _ = Machine.mk _ [.program (rest ++ [])] _
    rw [List.append_nil]
    rfl

/-- How a run without lines ended. -/
theorem outcome_unlined (control : Control) (flushFails : Bool) :
    (outcome control flushFails).mapError Located.unlined =
      outcome control.unlined flushFails := by
  cases control with
  | halting halt => cases halt <;> cases flushFails <;> rfl
  | _ => cases flushFails <;> rfl

end Interpreter

/-! ## Machines -/

namespace Machine

/-- The machines lead to the same one if collections and lines are forgotten. -/
def Alike (left right : Machine) : Prop :=
  ∃ (live reached : ScopeId → Prop) (middle other : Machine),
    left.AgreeOn live middle ∧ right.AgreeOn reached other ∧ middle.unlined = other.unlined

/-- The rest of a program after a collection, and on other lines without one. -/
theorem alike_start {live : ScopeId → Prop} {collected state : Interpreter}
    (h : collected.AgreeOn live state) {reached : ScopeId → Prop}
    (hstate : state.AgreeOn reached state) (down : Nat → Nat) (program : List Stmt) :
    (collected.start program).Alike (state.start (Stmt.mapLinesAll down program)) := by
  refine ⟨live, reached, _, _, agreeOn_start h program, agreeOn_start hstate _, ?_⟩
  rw [Interpreter.unlined_start, Interpreter.unlined_start, Stmt.unlinedAll_mapLinesAll]

namespace Alike

variable {setting : Setting} {left right : Machine}

theorem after (hnative : setting.NativesMakeNoFunctions)
    (hlines : setting.NativesOnlyReportLines) (h : left.Alike right) (n : Nat) :
    (left.after setting n).Alike (right.after setting n) := by
  obtain ⟨live, reached, middle, other, hleft, hright, hsame⟩ := h
  obtain ⟨live', hleft⟩ := hleft.after hnative n
  obtain ⟨reached', hright⟩ := hright.after hnative n
  refine ⟨live', reached', _, _, hleft, hright, ?_⟩
  rw [unlined_after hlines, unlined_after hlines, hsame]

theorem control_eq (h : left.Alike right) : left.control.unlined = right.control.unlined := by
  obtain ⟨live, reached, middle, other, hleft, hright, hsame⟩ := h
  rw [hleft.control_eq, hright.control_eq]
  exact congrArg control hsame

theorem atRest_eq (h : left.Alike right) : left.atRest = right.atRest := by
  obtain ⟨live, reached, middle, other, hleft, hright, hsame⟩ := h
  rw [atRest, hleft.control_eq, hleft.frames_eq, ← atRest, ← atRest_unlined, hsame,
    atRest_unlined, atRest, ← hright.control_eq, ← hright.frames_eq, ← atRest]

theorem effects_eq (h : left.Alike right) :
    left.state.effects.map Effect.unlined = right.state.effects.map Effect.unlined := by
  obtain ⟨live, reached, middle, other, hleft, hright, hsame⟩ := h
  have heffects : middle.state.unlined.effects = other.state.unlined.effects :=
    congrArg (fun machine => machine.state.effects) hsame
  have hmiddle : middle.state.effects = left.state.effects := by rw [hleft.state.outside]
  have hother : other.state.effects = right.state.effects := by rw [hright.state.outside]
  rw [← hmiddle, ← hother]
  exact heffects

theorem sink_eq (h : left.Alike right) : left.state.sink = right.state.sink := by
  obtain ⟨live, reached, middle, other, hleft, hright, hsame⟩ := h
  have hsink : middle.state.sink = other.state.sink :=
    congrArg (fun machine => machine.state.sink) hsame
  have hmiddle : middle.state.sink = left.state.sink := by rw [hleft.state.outside]
  have hother : other.state.sink = right.state.sink := by rw [hright.state.outside]
  rw [← hmiddle, ← hother, hsink]

/-- At the end the machines have the same global bindings. -/
theorem sameGlobals (setting : Setting) (h : left.Alike right) :
    (left.state.collectAtEnd setting).unlined.SameGlobals
      (right.state.collectAtEnd setting).unlined := by
  obtain ⟨live, reached, middle, other, hleft, hright, hsame⟩ := h
  obtain ⟨live', hleft⟩ := hleft.state.collectAtEnd setting
  obtain ⟨reached', hright⟩ := hright.state.collectAtEnd setting
  exact Interpreter.sameGlobals_of_agreeOn hleft hright (congrArg Machine.state hsame)

end Alike

end Machine

/-! ## Tables that keep what was recorded -/

/-- What was accepted so far is found by a table that has the same for all ids handed out. -/
theorem Interpreter.Tracked.foundBy {chronicle : Chronicle} {state : Interpreter}
    {table : HashMap NodeId Nat} (h : state.Tracked chronicle)
    (hsame : ∀ id : NodeId, id.toNat < chronicle.handedOut → table[id]? = state.distances[id]?) :
    state.Tracked { chronicle with accepted := Occurrence.FoundBy table } := by
  refine h.accepting fun occurrence _ hrecorded reference hreference => .inl ?_
  obtain ⟨hid, hdistance⟩ := hrecorded reference hreference
  rw [hsame _ hid, hdistance]

section Tables

variable {distances : HashMap NodeId Nat} {count drawn drawn' : Nat}
  {program program' : List Stmt} {earlier : StaticScope} {later : List Occurrence}

/-- The table after two programs that were resolved as one. -/
def joinedTable (distances : HashMap NodeId Nat) (program : List Stmt) (later : List Occurrence) :
    HashMap NodeId Nat :=
  (distances.insertMany
    ((Stmt.occurrencesAll program .top).filterMap Occurrence.recorded?)).insertMany
    (later.filterMap Occurrence.recorded?)

theorem Interpreter.addDistances_joined (state : Interpreter) (program : List Stmt)
    (later : List Occurrence) :
    state.addDistances
        ((Stmt.occurrencesAll program .top).filterMap Occurrence.recorded? ++
          later.filterMap Occurrence.recorded?) =
      (state.addDistances
        ((Stmt.occurrencesAll program .top).filterMap Occurrence.recorded?)).withTable
          (joinedTable state.distances program later) := by
  simp only [addDistances, withTable, joinedTable, HashMap.insertMany_append]

section Second

variable (hsecond : Layout.Drawn program' (count + drawn) drawn')
  (hover : List.Forall₂ (Occurrence.Over earlier) (Stmt.occurrencesAll program' .top) later)

include hsecond hover

/-- The second program leaves the ids of the first one, and those before, as they were. -/
theorem getElem?_joinedTable {id : NodeId} (hid : id.toNat < count + drawn) :
    (joinedTable distances program later)[id]? =
      (distances.insertMany
        ((Stmt.occurrencesAll program .top).filterMap Occurrence.recorded?))[id]? := by
  have hreferences := (Occurrence.Over.filterMap_reference? hover).trans
    (Stmt.filterMap_referenceAll? program' .top)
  refine getElem?_insertMany_other fun occurrence hmem reference hreference hsame => ?_
  have hlater := (hsecond.of_mem hreferences hmem hreference).1
  rw [hsame] at hlater
  exact absurd hid (Nat.not_lt.mpr hlater)

theorem getElem?_joinedTable_earlier (hfirst : Layout.Drawn program count drawn) {id : NodeId}
    (hid : id.toNat < count) :
    (joinedTable distances program later)[id]? = distances[id]? := by
  rw [getElem?_joinedTable hsecond hover (Nat.lt_add_right _ hid)]
  refine getElem?_insertMany_other fun occurrence hmem reference hreference hsame => ?_
  have hlater := (hfirst.occurrence hmem hreference).1
  rw [hsame] at hlater
  exact absurd hid (Nat.not_lt.mpr hlater)

variable (hfirst : Layout.Drawn program count drawn)
  (hkeys : ∀ (id : NodeId) distance, distances[id]? = some distance → id.toNat < count)

include hfirst hkeys

theorem foundBy_joinedTable_first :
    ∀ occurrence ∈ Stmt.occurrencesAll program .top,
      occurrence.FoundBy (joinedTable distances program later) := by
  rintro ⟨context, use⟩ hmem reference hreference
  match use, hreference with
  | .mention _, rfl =>
    have hdrawn := hfirst.occurrence hmem rfl
    rw [getElem?_joinedTable hsecond hover hdrawn.2]
    refine .inl (getElem?_insertMany_recorded
      (hfirst.distinctIds (Stmt.filterMap_referenceAll? program .top)) hmem ?_)
    refine Option.eq_none_iff_forall_ne_some.mpr fun distance hfound => ?_
    exact absurd (hkeys _ distance hfound) (Nat.not_lt.mpr hdrawn.1)

theorem foundBy_joinedTable_second :
    ∀ occurrence ∈ Stmt.occurrencesAll program' .top,
      occurrence.FoundBy (joinedTable distances program later) := by
  rintro ⟨context, use⟩ hmem reference hreference
  have hreferences := (Occurrence.Over.filterMap_reference? hover).trans
    (Stmt.filterMap_referenceAll? program' .top)
  obtain ⟨⟨context', use'⟩, hlater, hboth⟩ := Occurrence.Over.exists_of_mem hover hmem
  obtain rfl : use' = use := hboth.use
  match use', hreference with
  | .mention _, rfl =>
    have hdrawn := hsecond.occurrence hmem rfl
    -- neither the first program nor an earlier one has recorded the id
    have hfresh : (distances.insertMany
        ((Stmt.occurrencesAll program .top).filterMap Occurrence.recorded?))[reference.id]? =
          none := by
      refine (getElem?_insertMany_other fun occurrence hold other hother hsame => ?_).trans ?_
      · have hbefore := (hfirst.occurrence hold hother).2
        rw [hsame] at hbefore
        exact absurd hbefore (Nat.not_lt.mpr hdrawn.1)
      · refine Option.eq_none_iff_forall_ne_some.mpr fun distance hfound => ?_
        exact absurd (hkeys _ distance hfound)
          (Nat.not_lt.mpr (Nat.le_trans (Nat.le_add_right _ _) hdrawn.1))
    have hrecorded := getElem?_insertMany_recorded (hsecond.distinctIds hreferences) hlater hfresh
    rw [joinedTable, hrecorded]
    exact hboth.context.distance?_eq reference.name

end Second

end Tables

end CommandScript
