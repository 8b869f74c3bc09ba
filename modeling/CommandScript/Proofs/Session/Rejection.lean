import CommandScript.Proofs.Session.Relabelling

/-!
# Inputs that are refused

An input is refused if it cannot be scanned, parsed or resolved. The host then gets the
lexical faults followed by the syntactic ones or, if there are none of these, the faults of
the names. Nothing of the input is run, and nothing of it is kept but the ids that it was
given: they are not handed out again. So the session goes on as if it had never seen the
input. The ids that it hands out later are further on than they would be; moving those of
the refused input behind all others takes the later ids to the ones that they would be.

An input that is not refused ends with a status or with one fault, if it ends. In the end
the diagnostics say which kinds of faults the host has got.

* `Session.frontFaults`: what is wrong with an input before it is run.
* `Session.refused`: the session that has refused an input.
* `Session.GoesOnAs`: a session answers to a history like another one, up to ids.
* `Session.run_or_refuse`: inputs that are refused, and those that are run.
-/

namespace CommandScript

open Function (Injective)

/-! ## Diagnostics -/

namespace Diagnostics

/-- Faults that come before a run. -/
theorem reportAll_front (diagnostics : Diagnostics) {errors : List (Located Fault)}
    (h : ∀ error ∈ errors, error.cause.isRuntime = false) :
    diagnostics.reportAll errors =
      { diagnostics with
        reported := diagnostics.reported ++ errors.toArray
        hadError := diagnostics.hadError || !errors.isEmpty } := by
  induction errors generalizing diagnostics with
  | nil => simp [reportAll]
  | cons error rest ih =>
    obtain ⟨hfirst, hrest⟩ := List.forall_mem_cons.mp h
    rw [reportAll, List.foldl_cons, ← reportAll, ih _ hrest]
    simp [report, hfirst]

end Diagnostics

/-! ## Ids after skipped ones -/

namespace NodeId

/-- The id as it would be if the `skipped` ids after the first `count` had not been drawn.
These go behind all others. -/
def withoutSkipped (count skipped : Nat) (id : NodeId) : NodeId :=
  if id.toNat < count then id
  else if id.toNat < count + skipped then id - UInt32.ofNat (count + skipped)
  else id - UInt32.ofNat skipped

theorem toNat_withoutSkipped {count skipped : Nat} (hsmall : count + skipped < 2 ^ 32)
    (id : NodeId) :
    (withoutSkipped count skipped id).toNat =
      if id.toNat < count then id.toNat
      else if id.toNat < count + skipped then id.toNat + (2 ^ 32 - (count + skipped))
      else id.toNat - skipped := by
  have hid := id.toNat_lt
  unfold withoutSkipped
  split
  · rfl
  · split <;> rw [UInt32.toNat_sub, UInt32.toNat_ofNat'] <;> omega

theorem withoutSkipped_injective {count skipped : Nat} (hsmall : count + skipped < 2 ^ 32) :
    Injective (withoutSkipped count skipped) := by
  intro id other heq
  have hid := id.toNat_lt
  have hother := other.toNat_lt
  have hnat := congrArg UInt32.toNat heq
  rw [toNat_withoutSkipped hsmall, toNat_withoutSkipped hsmall] at hnat
  refine UInt32.toNat_inj.mp ?_
  split_ifs at hnat <;> omega

theorem withoutSkipped_of_lt {count skipped : Nat} {id : NodeId} (h : id.toNat < count) :
    withoutSkipped count skipped id = id :=
  if_pos h

/-- The ids that are drawn after the skipped ones. -/
theorem withoutSkipped_add {count skipped further : Nat}
    (hsmall : count + skipped + further < 2 ^ 32) :
    withoutSkipped count skipped
        (UInt32.ofNat count + UInt32.ofNat skipped + UInt32.ofNat further) =
      UInt32.ofNat count + UInt32.ofNat further := by
  have htoNat : (UInt32.ofNat count + UInt32.ofNat skipped + UInt32.ofNat further).toNat =
      count + skipped + further := by
    rw [← UInt32.ofNat_add, ← UInt32.ofNat_add, UInt32.toNat_ofNat', Nat.mod_eq_of_lt hsmall]
  rw [withoutSkipped, htoNat, if_neg (by omega), if_neg (by omega)]
  grind

end NodeId

namespace Session

variable {setting : Setting} {session : Session} {source : String}

/-! ## Faults before a run -/

/-- The lexical faults of an input, followed by its syntactic faults. -/
def readingFaults (session : Session) (source : String) : List (Located Fault) :=
  let scanned := scan session.words source
  scanned.errors.map (·.map Fault.lex) ++
    match (CommandScript.parse session.mode scanned.tokens session.nextId).program with
    | .ok _ => []
    | .error faults => faults.map (·.map Fault.parse)

/-- What is wrong with an input before it is run: its lexical and syntactic faults or, if it
has none, the faults of its names. -/
def frontFaults (session : Session) (source : String) : List (Located Fault) :=
  match session.readingFaults source with
  | [] =>
    match resolve (session.read source).1 with
    | .ok _ => []
    | .error faults => faults.map (·.map Fault.resolve)
  | faults => faults

/-- The session that has refused an input: it has drawn ids, and has had errors. -/
def refused (session : Session) (source : String) : Session :=
  { session with
    nextId := session.nextId + UInt32.ofNat (session.idsDrawn (.parse source))
    diagnostics := ⟨#[], true, false⟩ }

theorem diagnostics_afterReading (session : Session) (source : String) :
    (session.afterReading source).diagnostics =
      Diagnostics.empty.reportAll (session.readingFaults source) := by
  unfold afterReading read readingFaults
  dsimp only
  cases (CommandScript.parse session.mode (scan session.words source).tokens
    session.nextId).program with
  | ok program => rw [List.append_nil]
  | error faults => simp only [Diagnostics.reportAll, List.foldl_append]

theorem isRuntime_readingFaults :
    ∀ error ∈ session.readingFaults source, error.cause.isRuntime = false := by
  intro error hmem
  unfold readingFaults at hmem
  dsimp only at hmem
  rcases List.mem_append.mp hmem with hlex | hparse
  · obtain ⟨fault, -, rfl⟩ := List.mem_map.mp hlex
    rfl
  · split at hparse
    · cases hparse
    · obtain ⟨fault, -, rfl⟩ := List.mem_map.mp hparse
      rfl

theorem isRuntime_frontFaults :
    ∀ error ∈ session.frontFaults source, error.cause.isRuntime = false := by
  intro error hmem
  unfold frontFaults at hmem
  split at hmem
  · split at hmem
    · cases hmem
    · obtain ⟨fault, -, rfl⟩ := List.mem_map.mp hmem
      rfl
  · exact isRuntime_readingFaults error hmem

theorem hadError_afterReading (session : Session) (source : String) :
    (session.afterReading source).diagnostics.hadError =
      !(session.readingFaults source).isEmpty := by
  rw [diagnostics_afterReading, Diagnostics.reportAll_front _ isRuntime_readingFaults]
  rfl

/-- A program that is rejected has a fault. -/
theorem ne_nil_of_resolve {program : List Stmt} {faults : List (Located ResolveFault)}
    (h : resolve program = .error faults) : faults ≠ [] := by
  unfold resolve at h
  dsimp only at h
  split at h
  · cases h
  · rename_i hsome
    obtain rfl := Except.error.inj h
    simpa only [Array.isEmpty_iff, ne_eq, Array.toList_eq_nil_iff] using hsome

/-- An input is not run exactly if something is wrong with it before. -/
theorem accepted?_eq_none_iff :
    session.accepted? source = none ↔ session.frontFaults source ≠ [] := by
  unfold accepted? frontFaults
  rw [hadError_afterReading]
  cases session.readingFaults source with
  | cons error rest => simp
  | nil =>
    dsimp only
    cases hresolve : resolve (session.read source).1 with
    | ok distances => simp
    | error faults =>
      have hfaults := ne_nil_of_resolve hresolve
      simpa using hfaults

/-- The faults of an input that is not run, and the session that has reported them. -/
theorem rejected_eq (h : session.frontFaults source ≠ []) :
    session.rejected source = (session.frontFaults source, session.refused source) := by
  have hnext : ∀ diagnostics : Diagnostics,
      { session.afterReading source with diagnostics } =
        { session with
          nextId := session.nextId + UInt32.ofNat (session.idsDrawn (.parse source))
          diagnostics } := by
    intro diagnostics
    have hdrawn := afterReading_nextId session source 0
    rw [afterReading_eq, hdrawn]
    rfl
  have hreported : session.rejected source = takeErrors { session.afterReading source with
      diagnostics := Diagnostics.empty.reportAll (session.frontFaults source) } := by
    unfold rejected frontFaults
    dsimp only
    rw [hadError_afterReading, diagnostics_afterReading]
    cases session.readingFaults source with
    | nil => cases resolve (session.read source).1 <;> rfl
    | cons error rest => rfl
  rw [hreported, hnext, Diagnostics.reportAll_front _ isRuntime_frontFaults,
    List.isEmpty_eq_false_iff.mpr h]
  simp [takeErrors, Diagnostics.take, Diagnostics.empty, refused]

/-! ## A session that has refused an input -/

/-- A session answers to a history like another one, and comes to the same, up to ids; but the
first `count` ids are the same. -/
def GoesOnAs (setting : Setting) (count : Nat) (session other : Session)
    (actions : List HostAction) : Prop :=
  ∃ ids : NodeId → NodeId, Injective ids ∧ (∀ id, id.toNat < count → ids id = id) ∧
    List.Forall₂ (HostAnswer.Relabelled ids) (other.serve setting actions).1
      (session.serve setting actions).1 ∧
    (other.serve setting actions).2.Relabelled ids (∃ action ∈ actions, action.reads = true)
      (session.serve setting actions).2

/-- A session that has refused an input goes on as if it had not seen it. -/
theorem goesOnAs_refused (hnative : setting.NativesIgnoreIds) {sink : Sink}
    {before later : List HostAction}
    (hfinished : ((initial setting sink).serve setting before).2 = .finished session)
    (hsmall : (initial setting sink).handedOut setting before +
      session.idsDrawn (.parse source) +
        (session.refused source).handedOut setting later < 2 ^ 32) :
    (session.refused source).GoesOnAs setting ((initial setting sink).handedOut setting before)
      session later := by
  have hnextId := nextId_serve (Prod.ext rfl hfinished)
  generalize hcount : (initial setting sink).handedOut setting before = count at *
  generalize hskipped : session.idsDrawn (.parse source) = skipped at *
  have hids := @NodeId.withoutSkipped_injective count skipped (by omega)
  -- Nothing in the session has an id that moves, so it is related to itself; and the input
  -- leaves all of it alone but the counter, which the relation does not look at.
  have hsame := relabelled_of_finished hnative hids hfinished (by omega)
    (fun id hid => NodeId.withoutSkipped_of_lt (hcount ▸ hid))
  have hrefused : session.Relabelled (NodeId.withoutSkipped count skipped) False
      (session.refused source) :=
    ⟨hsame.words, hsame.mode, hsame.interpreter, False.elim⟩
  have hcounts : Counts (NodeId.withoutSkipped count skipped) session (session.refused source)
      ((session.refused source).handedOut setting later) := by
    intro further hfurther
    have hinitial : (initial setting sink).nextId = 0 := rfl
    rw [refused, hnextId, hinitial, UInt32.zero_add]
    dsimp only
    rw [hskipped]
    exact NodeId.withoutSkipped_add (by omega)
  obtain ⟨hanswers, hending⟩ := hrefused.serve hnative hids hcounts
  rw [false_or] at hending
  exact ⟨_, hids, fun _ => NodeId.withoutSkipped_of_lt, hanswers, hending⟩

/-! ## Runs -/

/-- The host gets a fault of a run or, if `runtime` does not hold, one that comes before. -/
def Reports (runtime : Bool) : Except (List (Located Fault)) Status → Prop
  | .ok _ => False
  | .error faults => ∃ fault ∈ faults, fault.cause.isRuntime = runtime

/-- The diagnostics once the host has got the result of a run. -/
structure Accounts (result : Except (List (Located Fault)) Status)
    (diagnostics : Diagnostics) : Prop where
  taken : diagnostics.reported = #[]
  hadError : diagnostics.hadError = true ↔ Reports false result
  hadRuntimeError : diagnostics.hadRuntimeError = true ↔ Reports true result

theorem accounts_refused (h : session.frontFaults source ≠ []) :
    Accounts (.error (session.frontFaults source)) (session.refused source).diagnostics where
  taken := rfl
  hadError := by
    obtain ⟨fault, hmem⟩ := List.exists_mem_of_ne_nil _ h
    exact iff_of_true rfl ⟨fault, hmem, isRuntime_frontFaults fault hmem⟩
  hadRuntimeError := by
    refine iff_of_false Bool.false_ne_true ?_
    rintro ⟨fault, hmem, hruntime⟩
    rw [isRuntime_frontFaults fault hmem] at hruntime
    exact Bool.false_ne_true hruntime

/-- A run ends with a status or with one fault. -/
theorem settle_spec (hclean : session.diagnostics = .empty) (final : Machine) :
    ((∃ status, (session.settle setting final).1 = .ok status) ∨
        ∃ fault : Located RuntimeFault,
          (session.settle setting final).1 = .error [fault.map Fault.runtime]) ∧
      Accounts (session.settle setting final).1 (session.settle setting final).2.diagnostics := by
  unfold settle reject takeErrors
  dsimp only
  rw [hclean]
  cases Interpreter.outcome final.control final.state.sink.flushFails with
  | ok status =>
    exact ⟨.inl ⟨status, rfl⟩, rfl, iff_of_false Bool.false_ne_true id,
      iff_of_false Bool.false_ne_true id⟩
  | error fault =>
    refine ⟨.inr ⟨fault, rfl⟩, rfl, iff_of_false Bool.false_ne_true ?_,
      iff_of_true rfl ⟨_, List.mem_singleton_self _, rfl⟩⟩
    rintro ⟨_, hmem, hfront⟩
    obtain rfl := List.mem_singleton.mp hmem
    exact Bool.false_ne_true hfront.symm

/-- An input with which nothing is wrong before it is run has a machine to run it. -/
theorem exists_launch (h : session.frontFaults source = []) :
    ∃ machine, session.launch source = some machine ∧
      (session.afterReading source).diagnostics = .empty := by
  have hreading : session.readingFaults source = [] := by
    unfold frontFaults at h
    split at h
    · assumption
    · assumption
  cases hlaunch : session.launch source with
  | none => exact absurd h (accepted?_eq_none_iff.mp (Option.map_eq_none_iff.mp hlaunch))
  | some machine =>
    refine ⟨machine, rfl, ?_⟩
    rw [diagnostics_afterReading, hreading]
    rfl

theorem run_of_frontFaults (h : session.frontFaults source ≠ []) (budget : Nat) :
    session.run setting budget source =
      some (.error (session.frontFaults source), session.refused source) := by
  rw [run_of_rejected (accepted?_eq_none_iff.mpr h), rejected_eq h]

/-- A run is over when its machine is at rest, with a status or with one fault. -/
theorem run_spec (h : session.frontFaults source = []) (budget : Nat) :
    ∃ machine, session.launch source = some machine ∧
      (session.run setting budget source = none ↔
        (machine.after setting budget).atRest = false) ∧
      ∀ result next, session.run setting budget source = some (result, next) →
        ((∃ status, result = .ok status) ∨
          ∃ fault : Located RuntimeFault, result = .error [fault.map Fault.runtime]) ∧
        Accounts result next.diagnostics := by
  obtain ⟨machine, hlaunch, hclean⟩ := exists_launch h
  refine ⟨machine, hlaunch, ?_⟩
  rw [run_of_launch hlaunch, Machine.run_eq_ite]
  constructor
  · cases (machine.after setting budget).atRest <;> simp
  · intro result next hsome
    obtain ⟨final, -, hsettle⟩ := Option.map_eq_some_iff.mp hsome
    have hspec := @settle_spec setting _ hclean final
    rw [hsettle] at hspec
    exact hspec

/-- **Inputs that are refused.** An input with which something is wrong before it is run
changes nothing in a session but the counter of ids and the diagnostics, and the host gets
all that is wrong. If the session has come to this point by a history, and fewer than
`2 ^ 32` ids are handed out in all, every further history leads to what it leads to without
the input. Another input is run, and it ends with a status or with one fault. In the end the
diagnostics say which kinds of faults the host has got. -/
theorem run_or_refuse (setting : Setting) (session : Session) (source : String) (budget : Nat) :
    (session.frontFaults source ≠ [] →
      session.run setting budget source =
          some (.error (session.frontFaults source), session.refused source) ∧
        (setting.NativesIgnoreIds → ∀ sink before later,
          ((initial setting sink).serve setting before).2 = .finished session →
          (initial setting sink).handedOut setting before + session.idsDrawn (.parse source) +
            (session.refused source).handedOut setting later < 2 ^ 32 →
          (session.refused source).GoesOnAs setting
            ((initial setting sink).handedOut setting before) session later)) ∧
      (session.frontFaults source = [] → ∃ machine, session.launch source = some machine ∧
        (session.run setting budget source = none ↔
          (machine.after setting budget).atRest = false) ∧
        ∀ result next, session.run setting budget source = some (result, next) →
          (∃ status, result = .ok status) ∨
            ∃ fault : Located RuntimeFault, result = .error [fault.map Fault.runtime]) ∧
      ∀ result next, session.run setting budget source = some (result, next) →
        Accounts result next.diagnostics := by
  by_cases hfaults : session.frontFaults source = []
  · obtain ⟨machine, hlaunch, hnone, hends⟩ := @run_spec setting _ _ hfaults budget
    exact ⟨fun hne => absurd hfaults hne,
      fun _ => ⟨machine, hlaunch, hnone, fun result next hsome => (hends result next hsome).1⟩,
      fun result next hsome => (hends result next hsome).2⟩
  · have hrun := @run_of_frontFaults setting _ _ hfaults budget
    refine ⟨fun _ => ⟨hrun, fun hnative _ _ _ => goesOnAs_refused hnative⟩,
      fun hnone => absurd hnone hfaults, fun result next hsome => ?_⟩
    rw [hrun] at hsome
    obtain ⟨rfl, rfl⟩ := Prod.mk.inj (Option.some.inj hsome)
    exact accounts_refused hfaults

/-- A function of an earlier input is called after an input with a fault. -/
theorem run_or_refuse_of_self_reference :
    let setting : Setting := ⟨.resolved, some 1, fun _ _ _ => .ok .null⟩
    let start := initial setting .unlimited
    let before : List HostAction := [.run "fun one() { var n = 1; return n; }" 50]
    let source := "{ var a = a; }"
    let next := "print one();"
    setting.NativesIgnoreIds ∧ ∃ session : Session,
      (start.serve setting before).2 = .finished session ∧
      session.frontFaults source ≠ [] ∧
      start.handedOut setting before + session.idsDrawn (.parse source) +
        (session.refused source).handedOut setting [.run next 50] < 2 ^ 32 ∧
      session.run setting 50 source =
        some (.error (session.frontFaults source), session.refused source) ∧
      (session.refused source).GoesOnAs setting (start.handedOut setting before) session
        [.run next 50] ∧
      Accounts (.error (session.frontFaults source)) (session.refused source).diagnostics ∧
      session.frontFaults next = [] ∧ ∃ machine, session.launch next = some machine ∧
        (session.run setting 50 next = none ↔ (machine.after setting 50).atRest = false) := by
  intro setting start before source next
  have hnative : setting.NativesIgnoreIds := fun _ _ _ _ => rfl
  have hfacts : (match (start.serve setting before).2 with
      | .unfinished _ => false
      | .finished session => decide (session.frontFaults source ≠ [] ∧
        start.handedOut setting before + session.idsDrawn (.parse source) +
          (session.refused source).idsDrawn (.run next 50) < 2 ^ 32 ∧
        session.frontFaults next = [])) = true := by
    decide +kernel
  split at hfacts
  · cases hfacts
  · rename_i session hfinished
    obtain ⟨hfaults, hids, hnext⟩ := of_decide_eq_true hfacts
    rw [← handedOut_singleton setting (session.refused source)] at hids
    obtain ⟨hrefused, -, haccounts⟩ := run_or_refuse setting session source 50
    obtain ⟨hrun, hgoes⟩ := hrefused hfaults
    obtain ⟨machine, hlaunch, hnone, -⟩ := (run_or_refuse setting session next 50).2.1 hnext
    exact ⟨hnative, session, hfinished, hfaults, hids, hrun,
      hgoes hnative .unlimited before [.run next 50] hfinished hids, haccounts _ _ hrun,
      hnext, machine, hlaunch, hnone⟩

end Session

end CommandScript
