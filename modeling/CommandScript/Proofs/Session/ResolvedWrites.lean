import CommandScript.Proofs.Session.ResolvedReads

/-!
# Resolved assignments

An assignment is resolved as a read is, but resolution does not ask whether the name is
ready. So an assignment may stand in the initializer of the variable that it assigns, where
a read would be refused. A block does not bind the name there yet, and the assignment fails
when it is run (`assign_in_own_initializer`).

Everywhere else a resolved assignment succeeds: where a read would be permitted the name is
ready, and the scope at the recorded distance binds it.

* `Interpreter.Selects.bound_or_pending`: the scope binds the name, or the name is pending.
* `resolved_write`: what becomes of a resolved assignment.
-/

namespace CommandScript

theorem Interpreter.target?_eq_of_distance {state : Interpreter} {id : NodeId} {distance : Nat}
    {scope : ScopeId} (hdistance : state.distances[id]? = some distance)
    (hfound : state.scopes.ancestor? state.current distance = some scope) (name : String) :
    state.target? .resolved id name =
      if (state.scopes.local? scope name).isSome then some scope else none := by
  simp only [Interpreter.target?, hdistance, hfound, Option.filter]

/-- At the place of an assignment a read of the name is refused only where the name is
pending in the innermost scope. -/
theorem Interpreter.Selects.bound_or_pending {opened : ScopeId → Origin → Prop}
    {state : Interpreter} {context : Context} {id : NodeId} {name : String} {distance : Nat}
    {scope : ScopeId} (h : state.Selects opened context name distance scope)
    (hplaced : Occurrence.WellPlaced ⟨context, .mention ⟨id, name, .write⟩⟩) :
    (state.scopes.local? scope name).isSome ∨
      distance = 0 ∧ ¬ Occurrence.Permitted ⟨context, .mention ⟨id, name, .read⟩⟩ := by
  obtain ⟨level, hlevel, hdeclares, hbound⟩ := h.ready
  by_cases hpermitted : Occurrence.Permitted ⟨context, .mention ⟨id, name, .read⟩⟩
  · have hread : Occurrence.WellPlaced ⟨context, .mention ⟨id, name, .read⟩⟩ :=
      ⟨hplaced.outer, fun head hhead => ⟨(hplaced.head head hhead).1, fun _ h => by cases h⟩⟩
    exact .inl (hbound (hread.ready_of_read hpermitted hlevel hdeclares))
  · cases distance with
    | zero => exact .inr ⟨rfl, hpermitted⟩
    | succ distance =>
      -- no level but the innermost one has a pending name
      cases context with
      | nil => cases hlevel
      | cons innermost outer =>
        have hcomplete := hplaced.outer level (List.mem_of_getElem? hlevel)
        exact .inl (hbound (hcomplete.ready hdeclares))

namespace Session

/-- **What becomes of resolved assignments.** Whenever a machine of a history comes to assign
to a variable with a recorded distance, the assignment stands in a program of the history and
the scope at the distance is an instance of the level that resolution chose. If the scope
binds the name, it binds it to the new value from then on. If it does not, the assignment
stands directly within a scope where a read of the name would have been refused, and the
variable is undefined. -/
theorem resolved_write {setting : Setting} (hrule : setting.lookup = .resolved)
    (hnative : setting.NativesMakeNoFunctions) (sink : Sink) (actions : List HostAction)
    (hids : (initial setting sink).handedOut setting actions < 2 ^ 32)
    {id : NodeId} {name : String} {line : Nat} {value : Value} {frames : List Frame}
    {state : Interpreter}
    (hvisits : Visits setting (initial setting sink) actions
      ⟨.value value, .assign id name line :: frames, state⟩)
    {distance : Nat} (hdistance : state.distances[id]? = some distance) :
    ∃ program ∈ (initial setting sink).programs setting actions, ∃ context scope,
      ⟨context, .mention ⟨id, name, .write⟩⟩ ∈ Stmt.occurrencesAll program .top ∧
      state.Selects ((initial setting sink).Opened setting actions) context name distance scope ∧
      ((state.scopes.local? scope name).isSome = true ∧
          Machine.step setting ⟨.value value, .assign id name line :: frames, state⟩ =
            ⟨.value value, frames, state.define scope name value⟩ ∨
        (state.scopes.local? scope name).isSome = false ∧
          distance = 0 ∧ ¬ Occurrence.Permitted ⟨context, .mention ⟨id, name, .read⟩⟩ ∧
          Machine.step setting ⟨.value value, .assign id name line :: frames, state⟩ =
            Machine.raise (.undefinedVariable name) line frames state) := by
  let chronicle : Chronicle :=
    { opened := (initial setting sink).Opened setting actions
      accepted := fun occurrence => ∃ program ∈ (initial setting sink).programs setting actions,
        occurrence ∈ Stmt.occurrencesAll program .top
      handedOut := 0 }
  have htracked : (initial setting sink).Tracked chronicle := tracked_initial setting sink rfl
  obtain ⟨count, hmachine⟩ := htracked.visits hnative (by rwa [Nat.zero_add])
    (fun program hmem occurrence hoccurrence => ⟨program, hmem, hoccurrence⟩)
    (fun machine origin hvisited horigin => ⟨machine, hvisited, horigin, rfl⟩) hvisits
  obtain ⟨context, scope, ⟨program, hmem, hoccurrence⟩, hplaced, -, hselects⟩ :=
    hmachine.reaches_write.selects hdistance
  refine ⟨program, hmem, context, scope, hoccurrence, hselects, ?_⟩
  have htarget := Interpreter.target?_eq_of_distance hdistance hselects.found name
  cases hbound : (state.scopes.local? scope name).isSome with
  | true =>
    refine .inl ⟨rfl, ?_⟩
    rw [hbound, if_pos rfl] at htarget
    simp only [Machine.step, Machine.stepValue, hrule, htarget]
  | false =>
    obtain hsome | ⟨hzero, hrefused⟩ := hselects.bound_or_pending hplaced
    · rw [hbound] at hsome
      cases hsome
    · refine .inr ⟨rfl, hzero, hrefused, ?_⟩
      rw [hbound, if_neg Bool.false_ne_true] at htarget
      simp only [Machine.step, Machine.stepValue, hrule, htarget]

/-- The assignment in a block within the block that declares the variable. -/
theorem resolved_write_of_block :
    let setting : Setting := ⟨.resolved, some 1, fun _ _ _ => .ok .null⟩
    let session := initial setting .unlimited
    let actions : List HostAction := [.run "{ var x; { x = true; } }" 9]
    setting.NativesMakeNoFunctions ∧ session.handedOut setting actions < 2 ^ 32 ∧
      ∃ frames state,
        Visits setting session actions
          ⟨.value (.bool true), .assign 0 "x" 1 :: frames, state⟩ ∧
        state.distances[(0 : NodeId)]? = some 1 ∧
        ∃ program ∈ session.programs setting actions, ∃ context scope,
          ⟨context, .mention ⟨0, "x", .write⟩⟩ ∈ Stmt.occurrencesAll program .top ∧
          state.Selects (session.Opened setting actions) context "x" 1 scope ∧
          ((state.scopes.local? scope "x").isSome = true ∧
              Machine.step setting ⟨.value (.bool true), .assign 0 "x" 1 :: frames, state⟩ =
                ⟨.value (.bool true), frames, state.define scope "x" (.bool true)⟩ ∨
            (state.scopes.local? scope "x").isSome = false ∧
              1 = 0 ∧ ¬ Occurrence.Permitted ⟨context, .mention ⟨0, "x", .read⟩⟩ ∧
              Machine.step setting ⟨.value (.bool true), .assign 0 "x" 1 :: frames, state⟩ =
                Machine.raise (.undefinedVariable "x") 1 frames state) := by
  intro setting session actions
  have hnative : setting.NativesMakeNoFunctions := by
    intro native args line value h
    cases h
    exact .inl rfl
  have hids : session.handedOut setting actions < 2 ^ 32 := by
    rw [handedOut_singleton]
    decide +kernel
  let program : List Stmt :=
    [.block [.declare "x" none 1,
      .block [.expression (.assign 0 "x" (.literal (.bool true) 1) 1) 1]]]
  have haccepted : session.accepted? "{ var x; { x = true; } }" = some (program, [(0, 1)]) := by
    decide +kernel
  let machine := (session.interpreter.addDistances [(0, 1)]).start program
  have hlaunch : session.launch "{ var x; { x = true; } }" = some machine := by
    rw [launch, haccepted]
    rfl
  have hvisits : Visits setting session actions ⟨.value (.bool true),
      .assign 0 "x" 1 :: (machine.after setting 9).frames.tail,
      (machine.after setting 9).state⟩ :=
    .running hlaunch (Nat.le_refl 9)
  have hdistance : (machine.after setting 9).state.distances[(0 : NodeId)]? = some 1 := by
    rw [(Machine.conserves_after setting 9 machine).distances]
    show (Std.HashMap.insertMany ∅ [((0 : NodeId), 1)])[(0 : NodeId)]? = some 1
    simp
  exact ⟨hnative, hids, _, _, hvisits, hdistance,
    resolved_write rfl hnative .unlimited actions hids hvisits hdistance⟩

/-- **An assignment in the initializer of its own variable is accepted and fails.** Its name
has a recorded distance, and the scope at the distance does not bind it. -/
theorem assign_in_own_initializer :
    let setting : Setting := ⟨.resolved, some 1, fun _ _ _ => .ok .null⟩
    let session := initial setting .unlimited
    let actions : List HostAction := [.run "{ var a = (a = true); }" 6]
    ∃ frames state,
      Visits setting session actions ⟨.value (.bool true), .assign 0 "a" 1 :: frames, state⟩ ∧
      state.distances[(0 : NodeId)]? = some 0 ∧
      state.scopes.ancestor? state.current 0 = some state.current ∧
      state.scopes.local? state.current "a" = none ∧
      Machine.step setting ⟨.value (.bool true), .assign 0 "a" 1 :: frames, state⟩ =
        Machine.raise (.undefinedVariable "a") 1 frames state := by
  intro setting session actions
  let program : List Stmt :=
    [.block [.declare "a" (some (.grouping (.assign 0 "a" (.literal (.bool true) 1) 1) 1)) 1]]
  have haccepted : session.accepted? "{ var a = (a = true); }" = some (program, [(0, 0)]) := by
    decide +kernel
  let machine := (session.interpreter.addDistances [(0, 0)]).start program
  have hlaunch : session.launch "{ var a = (a = true); }" = some machine := by
    rw [launch, haccepted]
    rfl
  let state := (machine.after setting 6).state
  have hvisits : Visits setting session actions ⟨.value (.bool true),
      .assign 0 "a" 1 :: (machine.after setting 6).frames.tail, state⟩ :=
    .running hlaunch (Nat.le_refl 6)
  have hdistance : state.distances[(0 : NodeId)]? = some 0 := by
    rw [(Machine.conserves_after setting 6 machine).distances]
    show (Std.HashMap.insertMany ∅ [((0 : NodeId), 0)])[(0 : NodeId)]? = some 0
    simp
  have hunbound : state.scopes.local? state.current "a" = none := rfl
  have htarget : state.target? .resolved 0 "a" = none := by
    rw [Interpreter.target?_eq_of_distance hdistance rfl "a", hunbound]
    rfl
  refine ⟨_, state, hvisits, hdistance, rfl, hunbound, ?_⟩
  simp only [Machine.step, Machine.stepValue, setting, htarget]

end Session

end CommandScript
