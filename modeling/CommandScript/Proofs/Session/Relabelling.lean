import CommandScript.Proofs.Grammar.Shifting
import CommandScript.Proofs.Machine.Relabelling
import CommandScript.Proofs.Resolution.Relabelling
import CommandScript.Proofs.Session.Splitting

/-!
# Sessions with other ids

Two sessions whose counters of ids differ do the same with the same inputs, up to ids: each
input is read as the same program with other ids, these have the same distances, and the
machines that run it take the same steps. What is needed is one injective function on ids
that takes the ids of one session to those of the other, those handed out so far and those
still to come.

* `Interpreter.Relabelled`, `Machine.Relabelled`, `Session.Relabelled`: the same up to ids.
* `HostAnswer.Relabelled`, `Ending.Relabelled`: answers and endings that are.
* `Session.Relabelled.act`: an action of the host on two such sessions.
* `Session.Relabelled.serve`: a history.
* `Session.relabelled_of_finished`: a session is the same with any ids that it has not drawn.
-/

namespace CommandScript

open Std (HashMap)

/-- A native cannot look into the declaration of a function. -/
def Setting.NativesIgnoreIds (setting : Setting) : Prop :=
  ∀ ids, setting.NativesCarry (.ofIds ids)

/-! ## Interpreters and machines -/

/-- The interpreters are the same up to ids. -/
structure Interpreter.Relabelled (ids : NodeId → NodeId) (state other : Interpreter) : Prop where
  registry : other.registry = state.registry
  carries : (Relabelling.ofIds ids).Carries other.distances state.distances
  same : other.relabel (.ofIds ids) state.distances = state.relabel .refl state.distances

/-- The machines are the same up to ids. -/
structure Machine.Relabelled (ids : NodeId → NodeId) (machine other : Machine) : Prop where
  registry : other.state.registry = machine.state.registry
  carries : (Relabelling.ofIds ids).Carries other.state.distances machine.state.distances
  same : other.relabel (.ofIds ids) machine.state.distances =
    machine.relabel .refl machine.state.distances

theorem Relabelling.Carries.insertMany {ids : NodeId → NodeId} (hids : Function.Injective ids)
    {distances table : HashMap NodeId Nat} (h : (ofIds ids).Carries distances table)
    (recorded : List (NodeId × Nat)) :
    (ofIds ids).Carries (distances.insertMany recorded)
      (table.insertMany (recorded.map (ofIds ids).entry)) := by
  induction recorded generalizing distances table with
  | nil => simpa only [List.map_nil, HashMap.insertMany_nil] using h
  | cons entry rest ih =>
    obtain ⟨key, distance⟩ := entry
    have hinsert : (ofIds ids).Carries (distances.insert key distance)
        (table.insert (ids key) distance) := by
      intro id
      have hkeys : (ids key == ids id) = (key == id) := by
        rw [Bool.eq_iff_iff, beq_iff_eq, beq_iff_eq, hids.eq_iff]
      rw [HashMap.getElem?_insert, HashMap.getElem?_insert, ← h id]
      exact congrArg (fun found : Bool => if found = true then some distance else _) hkeys
    have hrest := ih hinsert
    rw [← HashMap.insertMany_cons, ← HashMap.insertMany_cons] at hrest
    exact hrest

theorem Interpreter.outcome_relabel (ids : NodeId → NodeId) (control : Control)
    (flushFails : Bool) :
    outcome (control.relabel (.ofIds ids)) flushFails = outcome control flushFails := by
  cases control with
  | halting halt => cases halt <;> rfl
  | _ => rfl

namespace Interpreter.Relabelled

variable {ids : NodeId → NodeId} {state other : Interpreter}

theorem globals_eq (h : state.Relabelled ids other) : other.globals = state.globals := by
  have hsame := congrArg globals h.same
  exact hsame

theorem addDistances (hids : Function.Injective ids) (h : state.Relabelled ids other)
    (recorded : List (NodeId × Nat)) :
    (state.addDistances (recorded.map (Relabelling.ofIds ids).entry)).Relabelled ids
      (other.addDistances recorded) where
  registry := h.registry
  carries := h.carries.insertMany hids recorded
  same := congrArg (fun same : Interpreter =>
    { same with
      distances := state.distances.insertMany (recorded.map (Relabelling.ofIds ids).entry) })
    h.same

theorem collectAtEnd (h : state.Relabelled ids other) (setting : Setting) :
    (state.collectAtEnd setting).Relabelled ids (other.collectAtEnd setting) := by
  have hdistances : (state.collectAtEnd setting).distances = state.distances := by
    rw [collectAtEnd_eq]
  refine ⟨?_, ?_, ?_⟩
  · rw [collectAtEnd_eq, collectAtEnd_eq setting state]
    exact h.registry
  · rw [collectAtEnd_eq, hdistances]
    exact h.carries
  · rw [hdistances, relabel_collectAtEnd, h.same, relabel_collectAtEnd]

theorem define (h : state.Relabelled ids other) (name : String) {value : Value}
    (plain : value.closure? = none) :
    (state.define state.globals name value).Relabelled ids
      (other.define other.globals name value) where
  registry := h.registry
  carries := h.carries
  same := by
    have hdistances : (state.define state.globals name value).distances = state.distances := rfl
    rw [hdistances, relabel_define, relabel_define, h.same, h.globals_eq,
      Value.relabel_of_closure?_eq_none _ plain, Value.relabel_of_closure?_eq_none _ plain]

theorem withRegistry (h : state.Relabelled ids other) (registry : Registry) :
    Relabelled ids { state with registry } { other with registry } where
  registry := rfl
  carries := h.carries
  same := congrArg (fun same : Interpreter => { same with registry := registry.agreeable }) h.same

theorem effects_eq (h : state.Relabelled ids other) :
    other.effects.map (Effect.relabel (.ofIds ids)) = state.effects.map (Effect.relabel .refl) :=
  congrArg effects h.same

theorem withoutEffects (h : state.Relabelled ids other) :
    Relabelled ids { state with effects := #[] } { other with effects := #[] } where
  registry := h.registry
  carries := h.carries
  same := by
    have hsame := congrArg (fun same : Interpreter => { same with effects := #[] }) h.same
    simp only [relabel, Array.map_empty] at hsame ⊢
    exact hsame

theorem start (h : state.Relabelled ids other) (program : List Stmt) :
    (state.start (Stmt.relabelAll (.ofIds ids) program)).Relabelled ids (other.start program) := by
  have hstate : ∀ (state : Interpreter) program, (state.start program).state = state := by
    intro state program
    cases program <;> rfl
  refine ⟨?_, ?_, ?_⟩
  · rw [hstate, hstate, h.registry]
  · rw [hstate, hstate]
    exact h.carries
  · rw [hstate, relabel_start, relabel_start, h.same, Stmt.relabelAll_refl]

end Interpreter.Relabelled

namespace Machine.Relabelled

variable {setting : Setting} {ids : NodeId → NodeId} {machine other : Machine}

theorem state (h : machine.Relabelled ids other) : machine.state.Relabelled ids other.state :=
  ⟨h.registry, h.carries, congrArg Machine.state h.same⟩

theorem after (hnative : setting.NativesIgnoreIds) (h : machine.Relabelled ids other) (n : Nat) :
    (machine.after setting n).Relabelled ids (other.after setting n) := by
  have hmachine := conserves_after setting n machine
  have hother := conserves_after setting n other
  have hrefl : setting.NativesCarry .refl := hnative id
  have hself : Relabelling.refl.Carries machine.state.distances machine.state.distances :=
    fun _ => rfl
  refine ⟨?_, ?_, ?_⟩
  · rw [hmachine.registry, hother.registry, h.registry]
  · rw [hmachine.distances, hother.distances]
    exact h.carries
  · rw [hmachine.distances, relabel_after (hnative ids) other h.carries, h.same,
      relabel_after hrefl machine hself]

theorem atRest_eq (h : machine.Relabelled ids other) : other.atRest = machine.atRest := by
  rw [← atRest_relabel (.ofIds ids) machine.state.distances other, h.same, atRest_relabel]

theorem outcome_eq (h : machine.Relabelled ids other) :
    Interpreter.outcome other.control other.state.sink.flushFails =
      Interpreter.outcome machine.control machine.state.sink.flushFails := by
  have hcontrol : other.control.relabel (.ofIds ids) = machine.control.relabel (.ofIds id) :=
    congrArg control h.same
  have hsink : other.state.sink = machine.state.sink :=
    congrArg (fun machine => machine.state.sink) h.same
  rw [← Interpreter.outcome_relabel ids, hcontrol, Interpreter.outcome_relabel, hsink]

end Machine.Relabelled

/-! ## Sessions and their answers -/

namespace Session

/-- The sessions are the same up to ids, but for their counters. They have the same
diagnostics only if `reported` holds. -/
structure Relabelled (ids : NodeId → NodeId) (reported : Prop) (session other : Session) :
    Prop where
  words : other.words = session.words
  mode : other.mode = session.mode
  interpreter : session.interpreter.Relabelled ids other.interpreter
  diagnostics : reported → other.diagnostics = session.diagnostics

/-- The ids that the other session hands out next are taken to those of the session. -/
def Counts (ids : NodeId → NodeId) (session other : Session) (drawn : Nat) : Prop :=
  ∀ count < drawn,
    ids (other.nextId + UInt32.ofNat count) = session.nextId + UInt32.ofNat count

end Session

/-- The action reads an input and reports anew what is wrong with it. -/
def HostAction.reads : HostAction → Bool
  | .run .. | .parse _ => true
  | _ => false

inductive HostAnswer.Relabelled (ids : NodeId → NodeId) : HostAnswer → HostAnswer → Prop where
  | ran (result : Except (List (Located Fault)) Status) : Relabelled ids (.ran result) (.ran result)
  | parsed (result : Except (List (Located Fault)) (List Stmt)) :
    Relabelled ids (.parsed (result.map (Stmt.relabelAll (.ofIds ids)))) (.parsed result)
  | took {effects effects' : Array Effect} :
    effects'.map (Effect.relabel (.ofIds ids)) = effects.map (Effect.relabel .refl) →
    Relabelled ids (.took effects) (.took effects')
  | done : Relabelled ids .done .done

inductive Ending.Relabelled (ids : NodeId → NodeId) (reported : Prop) : Ending → Ending → Prop where
  | finished {session other : Session} : session.Relabelled ids reported other →
    Relabelled ids reported (.finished session) (.finished other)
  | unfinished {machine other : Option Machine} :
    Option.Rel (Machine.Relabelled ids) machine other →
    Relabelled ids reported (.unfinished machine) (.unfinished other)

namespace Session.Relabelled

variable {setting : Setting} {ids : NodeId → NodeId} {reported : Prop} {session other : Session}

theorem mono (h : session.Relabelled ids reported other) {less : Prop} (hless : less → reported) :
    session.Relabelled ids less other :=
  ⟨h.words, h.mode, h.interpreter, fun hmore => h.diagnostics (hless hmore)⟩

/-! ## Reading -/

/-- The other session reads the same program with other ids. -/
theorem parse_eq (h : session.Relabelled ids reported other) {source : String}
    (hcounts : Counts ids session other (other.idsDrawn (.parse source))) :
    CommandScript.parse session.mode (scan session.words source).tokens session.nextId =
      { program :=
          (CommandScript.parse other.mode (scan other.words source).tokens
            other.nextId).program.map (Stmt.relabelAll (.ofIds ids))
        nextId := session.nextId + UInt32.ofNat (other.idsDrawn (.parse source))
        drawn := other.idsDrawn (.parse source) } := by
  have hfurther : other.nextId + (session.nextId - other.nextId) = session.nextId := by
    grind
  have hshifted := parse_add other.mode (scan other.words source).tokens other.nextId
    (session.nextId - other.nextId)
  have hnextId := parse_nextId other.mode (scan other.words source).tokens other.nextId
  rw [hfurther] at hshifted
  rw [← h.words, ← h.mode, hshifted, hnextId]
  unfold Counts idsDrawn at hcounts
  unfold idsDrawn
  have hcounter : ∀ drawn : NodeId,
      other.nextId + drawn + (session.nextId - other.nextId) = session.nextId + drawn := by
    grind
  rw [hcounter]
  cases hprogram : (CommandScript.parse other.mode (scan other.words source).tokens
    other.nextId).program with
  | error faults => rfl
  | ok program =>
    have hsame : Stmt.relabelAll (Grammar.shift (session.nextId - other.nextId)) program =
        Stmt.relabelAll (.ofIds ids) program := by
      refine Stmt.relabelAll_congr program ⟨fun reference hmem => ?_, rfl⟩
      obtain ⟨count, hcount, hid⟩ := List.mem_map.mp
        ((parse_spec hprogram).2.subset (List.mem_map_of_mem hmem))
      rw [← hid]
      exact (hcounter _).trans (hcounts count (List.mem_range.mp hcount)).symm
    simp only [Except.map, hsame]

section Reading

variable (h : session.Relabelled ids reported other) {source : String}
  (hcounts : Counts ids session other (other.idsDrawn (.parse source)))

include h hcounts

theorem read_eq :
    (session.read source).1 = Stmt.relabelAll (.ofIds ids) (other.read source).1 ∧
      (session.afterReading source).diagnostics = (other.afterReading source).diagnostics := by
  unfold Session.afterReading read
  dsimp only
  rw [h.parse_eq hcounts, h.words]
  cases (CommandScript.parse other.mode (scan session.words source).tokens
    other.nextId).program <;> exact ⟨rfl, rfl⟩

theorem afterReading :
    (session.afterReading source).Relabelled ids True (other.afterReading source) := by
  have hdiagnostics := (h.read_eq hcounts).2
  rw [afterReading_eq, afterReading_eq other]
  exact ⟨h.words, h.mode, h.interpreter, fun _ => hdiagnostics.symm⟩

theorem resolve_eq :
    resolve (session.read source).1 =
      (resolve (other.read source).1).map (List.map (Relabelling.ofIds ids).entry) := by
  have hfaults : List.map (@Located.relabel ResolveFault (.ofIds ids)) = id :=
    List.map_id_fun
  rw [(h.read_eq hcounts).1, resolve_relabelAll, hfaults]
  cases resolve (other.read source).1 <;> rfl

theorem accepted?_eq :
    session.accepted? source = (other.accepted? source).map fun (program, distances) =>
      (Stmt.relabelAll (.ofIds ids) program, distances.map (Relabelling.ofIds ids).entry) := by
  unfold accepted?
  rw [(h.read_eq hcounts).2, h.resolve_eq hcounts, (h.read_eq hcounts).1]
  split
  · rfl
  · cases resolve (other.read source).1 <;> rfl

theorem rejected_eq :
    (session.rejected source).1 = (other.rejected source).1 ∧
      (session.rejected source).2.Relabelled ids True (other.rejected source).2 := by
  have hafter := h.afterReading hcounts
  have hreported : (session.rejected source).1 = (other.rejected source).1 ∧
      (other.rejected source).2.diagnostics = (session.rejected source).2.diagnostics := by
    unfold rejected takeErrors
    dsimp only
    rw [(h.read_eq hcounts).2, h.resolve_eq hcounts]
    cases resolve (other.read source).1 <;> exact ⟨rfl, rfl⟩
  exact ⟨hreported.1, hafter.words, hafter.mode, hafter.interpreter, fun _ => hreported.2⟩

theorem launch (hids : Function.Injective ids) :
    (session.accepted? source = none ∧ other.accepted? source = none) ∨
      ∃ machine machine', session.launch source = some machine ∧
        other.launch source = some machine' ∧ machine.Relabelled ids machine' := by
  unfold Session.launch
  rw [h.accepted?_eq hcounts]
  cases other.accepted? source with
  | none => exact .inl ⟨rfl, rfl⟩
  | some accepted =>
    have hstart := (h.interpreter.addDistances hids accepted.2).start accepted.1
    exact .inr ⟨_, _, rfl, rfl, hstart⟩

end Reading

/-! ## Actions -/

theorem settle (h : session.Relabelled ids True other) {final final' : Machine}
    (hfinal : final.Relabelled ids final') :
    (session.settle setting final).1 = (other.settle setting final').1 ∧
      (session.settle setting final).2.Relabelled ids True (other.settle setting final').2 := by
  obtain ⟨hwords, hmode, -⟩ := @settle_reads setting session final
  obtain ⟨hwords', hmode', -⟩ := @settle_reads setting other final'
  have hreported : (session.settle setting final).1 = (other.settle setting final').1 ∧
      (other.settle setting final').2.diagnostics =
        (session.settle setting final).2.diagnostics := by
    unfold Session.settle reject takeErrors
    dsimp only
    rw [hfinal.outcome_eq, h.diagnostics trivial]
    cases Interpreter.outcome final.control final.state.sink.flushFails <;> exact ⟨rfl, rfl⟩
  refine ⟨hreported.1, ?_, ?_, ?_, fun _ => hreported.2⟩
  · rw [hwords, hwords', h.words]
  · rw [hmode, hmode', h.mode]
  · rw [settle_interpreter, settle_interpreter]
    exact hfinal.state.collectAtEnd setting

/-- What an action leads to in two sessions that are the same up to ids. -/
inductive Outcome (ids : NodeId → NodeId) (reported : Prop) :
    Except (Option Machine) (HostAnswer × Session) →
    Except (Option Machine) (HostAnswer × Session) → Prop where
  | answered {answer answer' : HostAnswer} {next next' : Session} :
    answer.Relabelled ids answer' → next.Relabelled ids reported next' →
    Outcome ids reported (.ok (answer, next)) (.ok (answer', next'))
  | exhausted {machine machine' : Option Machine} :
    Option.Rel (Machine.Relabelled ids) machine machine' →
    Outcome ids reported (.error machine) (.error machine')

theorem Outcome.mono {acted acted' : Except (Option Machine) (HostAnswer × Session)}
    (h : Outcome ids reported acted acted') {less : Prop} (hless : less → reported) :
    Outcome ids less acted acted' := by
  cases h with
  | answered hanswer hnext => exact .answered hanswer (hnext.mono hless)
  | exhausted hmachine => exact .exhausted hmachine

theorem act_run (hnative : setting.NativesIgnoreIds) (hids : Function.Injective ids)
    (h : session.Relabelled ids reported other) {source : String} {budget : Nat}
    (hcounts : Counts ids session other (other.idsDrawn (.run source budget))) :
    Outcome ids True (session.act setting (.run source budget))
      (other.act setting (.run source budget)) := by
  unfold Session.act
  dsimp only
  rcases h.launch hcounts hids with ⟨hnone, hnone'⟩ | ⟨machine, machine', hlaunch, hlaunch', hstart⟩
  · obtain ⟨hresult, hsession⟩ := h.rejected_eq hcounts
    rw [run_of_rejected hnone, run_of_rejected hnone', hresult]
    exact .answered (.ran _) hsession
  · have hafter := hstart.after hnative budget
    rw [run_of_launch hlaunch, run_of_launch hlaunch', Machine.run_eq_ite, Machine.run_eq_ite,
      hafter.atRest_eq, hlaunch, hlaunch']
    by_cases hrest : (machine.after setting budget).atRest = true
    · obtain ⟨hresult, hsession⟩ := @settle setting _ _ _ (h.afterReading hcounts) _ _ hafter
      rw [if_pos hrest, if_pos hrest]
      dsimp only [Option.map_some]
      rw [hresult]
      exact .answered (.ran _) hsession
    · rw [if_neg hrest, if_neg hrest]
      exact .exhausted (.some hafter)

theorem act_parse (h : session.Relabelled ids reported other) {source : String}
    (hcounts : Counts ids session other (other.idsDrawn (.parse source))) :
    Outcome ids True (session.act setting (.parse source)) (other.act setting (.parse source)) := by
  obtain ⟨hprogram, hdiagnostics⟩ := h.read_eq hcounts
  have hafter := h.afterReading hcounts
  unfold Session.afterReading at hdiagnostics hafter
  unfold Session.act Session.parse reject takeErrors
  dsimp only
  rw [hdiagnostics, hprogram]
  split
  · exact .answered (.parsed (.error _))
      ⟨hafter.words, hafter.mode, hafter.interpreter, fun _ => rfl⟩
  · exact .answered (.parsed (.ok _)) hafter

theorem withRegistry (h : session.Relabelled ids reported other) (registry : Registry) :
    (session.withRegistry registry).Relabelled ids reported (other.withRegistry registry) :=
  ⟨rfl, h.mode, h.interpreter.withRegistry registry, h.diagnostics⟩

theorem idsDrawn_eq (h : session.Relabelled ids reported other) {action : HostAction}
    (hcounts : Counts ids session other (other.idsDrawn action)) :
    session.idsDrawn action = other.idsDrawn action := by
  cases action with
  | run source | parse source =>
    have hdrawn := congrArg Parsed.drawn (h.parse_eq hcounts)
    exact hdrawn
  | _ => rfl

/-- An action leads to the same in both, and leaves the same diagnostics if it reads an input. -/
theorem act (hnative : setting.NativesIgnoreIds) (hids : Function.Injective ids)
    (h : session.Relabelled ids reported other) {action : HostAction}
    (hcounts : Counts ids session other (other.idsDrawn action)) :
    Outcome ids (reported ∨ action.reads = true) (session.act setting action)
      (other.act setting action) := by
  cases action with
  | run source budget => exact (h.act_run hnative hids hcounts).mono fun _ => trivial
  | parse source => exact (h.act_parse hcounts).mono fun _ => trivial
  | setMode mode => exact .answered .done ⟨h.words, rfl, h.interpreter,
      fun hor => h.diagnostics (hor.resolve_right nofun)⟩
  | register name module =>
    unfold Session.act register
    rw [h.interpreter.registry]
    exact .answered .done ((h.withRegistry _).mono fun hor => hor.resolve_right nofun)
  | install module =>
    unfold Session.act install
    rw [h.interpreter.registry]
    exact .answered .done ((h.withRegistry _).mono fun hor => hor.resolve_right nofun)
  | define name value plain =>
    exact .answered .done ⟨h.words, h.mode, h.interpreter.define name plain,
      fun hor => h.diagnostics (hor.resolve_right nofun)⟩
  | takeEffects =>
    exact .answered (.took h.interpreter.effects_eq)
      ⟨h.words, h.mode, h.interpreter.withoutEffects,
        fun hor => h.diagnostics (hor.resolve_right nofun)⟩

end Session.Relabelled

/-! ## Histories -/

namespace Session

variable {setting : Setting}

theorem nextId_act {session next : Session} {action : HostAction} {answer : HostAnswer}
    (h : session.act setting action = .ok (answer, next)) :
    next.nextId = session.nextId + UInt32.ofNat (session.idsDrawn action) := by
  cases action with
  | run source budget =>
    have hread := afterReading_nextId session source budget
    obtain ⟨-, rfl⟩ | ⟨machine, -, -, rfl⟩ := act_run_cases h
    · exact hread
    · exact (settle_reads _).2.2.trans hread
  | parse source =>
    have hread := afterReading_nextId session source 0
    have hparsed : (session.parse source).2 = next := (Prod.mk.inj (Except.ok.inj h)).2
    rw [← hparsed, parse_eq]
    exact hread
  | _ =>
    obtain ⟨-, rfl⟩ := Prod.mk.inj (Except.ok.inj h)
    exact (UInt32.add_zero _).symm

theorem nextId_serve {session last : Session} {actions : List HostAction}
    {answers : List HostAnswer}
    (h : session.serve setting actions = (answers, .finished last)) :
    last.nextId = session.nextId + UInt32.ofNat (session.handedOut setting actions) := by
  induction actions generalizing session answers with
  | nil =>
    obtain ⟨-, hlast⟩ := Prod.mk.inj h
    obtain rfl := Ending.finished.inj hlast
    exact (UInt32.add_zero _).symm
  | cons action rest ih =>
    unfold serve at h
    unfold handedOut
    cases hact : session.act setting action with
    | error machine =>
      rw [hact] at h
      cases (Prod.mk.inj h).2
    | ok result =>
      obtain ⟨answer, next⟩ := result
      rw [hact] at h
      dsimp only at h ⊢
      have hrest := ih (Prod.ext rfl (Prod.mk.inj h).2)
      rw [hrest, nextId_act hact, UInt32.ofNat_add, UInt32.add_assoc]

/-- Sessions that are the same up to ids give the same answers to a history, up to ids. -/
theorem Relabelled.serve {ids : NodeId → NodeId} {reported : Prop} {session other : Session}
    (hnative : setting.NativesIgnoreIds) (hids : Function.Injective ids)
    (h : session.Relabelled ids reported other) {actions : List HostAction}
    (hcounts : Counts ids session other (other.handedOut setting actions)) :
    List.Forall₂ (HostAnswer.Relabelled ids) (session.serve setting actions).1
        (other.serve setting actions).1 ∧
      (session.serve setting actions).2.Relabelled ids
        (reported ∨ ∃ action ∈ actions, action.reads = true) (other.serve setting actions).2 := by
  induction actions generalizing session other reported with
  | nil => exact ⟨.nil, .finished (h.mono fun hor => hor.resolve_right (by simp))⟩
  | cons action rest ih =>
    unfold handedOut at hcounts
    have hfirst : Counts ids session other (other.idsDrawn action) := fun count hcount =>
      hcounts count (Nat.lt_add_right _ hcount)
    have hdrawn := h.idsDrawn_eq hfirst
    have houtcome := h.act hnative hids hfirst
    unfold Session.serve
    generalize hact : session.act setting action = acted at houtcome ⊢
    generalize hact' : other.act setting action = acted' at houtcome hcounts ⊢
    cases houtcome with
    | exhausted hmachine => exact ⟨.nil, .unfinished hmachine⟩
    | @answered answer answer' next next' hanswer hnext =>
      have hrest : Counts ids next next' (next'.handedOut setting rest) := by
        intro count hcount
        have htotal := hcounts (other.idsDrawn action + count) (Nat.add_lt_add_left hcount _)
        rw [nextId_act hact, nextId_act hact', hdrawn, UInt32.add_assoc, UInt32.add_assoc,
          ← UInt32.ofNat_add]
        exact htotal
      obtain ⟨hanswers, hending⟩ := ih hnext hrest
      have hreads : (reported ∨ ∃ act ∈ action :: rest, act.reads = true) ↔
          (reported ∨ action.reads = true) ∨ ∃ act ∈ rest, act.reads = true := by
        rw [List.exists_mem_cons_iff, or_assoc]
      refine ⟨.cons hanswer hanswers, ?_⟩
      rw [hreads]
      exact hending

/-! ## From the beginning -/

/-- The scopes of a session that has not run anything hold no declared function. -/
theorem mapValues_initial (r : Relabelling) (setting : Setting) (sink : Sink) :
    (initial setting sink).interpreter.scopes.mapValues (Value.relabel r) =
      (initial setting sink).interpreter.scopes := by
  have hempty : Scopes.empty.mapValues (Value.relabel r) = Scopes.empty :=
    Scopes.eq_of_find_eq fun id => by rw [Scopes.find_mapValues]; rfl
  have hinitial : (initial setting sink).interpreter.scopes =
      (Scopes.empty.add none).define 0 "clock" (.native Interpreter.clock 0) := rfl
  rw [hinitial, Scopes.mapValues_define, Scopes.mapValues_add, hempty]
  rfl

theorem relabelled_initial (ids : NodeId → NodeId) (setting : Setting) (sink : Sink) :
    (initial setting sink).Relabelled ids True (initial setting sink) where
  words := rfl
  mode := rfl
  interpreter :=
    { registry := rfl
      carries := fun id => by
        have hempty : (initial setting sink).interpreter.distances = ∅ := rfl
        rw [hempty, HashMap.getElem?_empty, HashMap.getElem?_empty]
      same := by
        have hquiet : (initial setting sink).interpreter.effects = #[] := rfl
        unfold Interpreter.relabel
        rw [mapValues_initial, mapValues_initial, hquiet, Array.map_empty, Array.map_empty] }
  diagnostics _ := rfl

/-- Ids that are not handed out in a history can be exchanged in what it leads to. -/
theorem relabelled_of_finished {session : Session} (hnative : setting.NativesIgnoreIds)
    {ids : NodeId → NodeId} (hids : Function.Injective ids) {sink : Sink}
    {actions : List HostAction}
    (hfinished : ((initial setting sink).serve setting actions).2 = .finished session)
    (hsmall : (initial setting sink).handedOut setting actions < 2 ^ 32)
    (hfixed : ∀ id, id.toNat < (initial setting sink).handedOut setting actions → ids id = id) :
    session.Relabelled ids False session := by
  have hcounts : Counts ids (initial setting sink) (initial setting sink)
      ((initial setting sink).handedOut setting actions) := by
    intro drawn hdrawn
    refine hfixed _ ?_
    have hzero : (initial setting sink).nextId = 0 := rfl
    rw [hzero, UInt32.zero_add, UInt32.toNat_ofNat', Nat.mod_eq_of_lt (Nat.lt_trans hdrawn hsmall)]
    exact hdrawn
  have hending := ((relabelled_initial ids setting sink).serve hnative hids hcounts).2
  rw [hfinished] at hending
  cases hending with
  | finished hsession => exact hsession.mono False.elim

end Session

end CommandScript
