import CommandScript.Proofs.Grammar.Structure
import CommandScript.Proofs.Machine.Tracking
import CommandScript.Proofs.Resolution.Recording
import CommandScript.Proofs.Session.History
import Mathlib.Algebra.Group.Nat.Defs

/-!
# Sessions whose scopes are tracked to their origins

A session that starts anew is tracked, and every action of the host keeps it so: an input
that is run was accepted and has ids that were not handed out before, a run keeps its
machine tracked, and when it comes to rest the current scope is the global one again.

* `Session.Tracked`: a session between two actions.
* `Session.accepted?_spec`: what is known about a program that is run.
* `Session.Tracked.act`: an action keeps a session tracked.
* `Session.Tracked.visits`: so all machines of a history are tracked.
-/

namespace CommandScript.Session

/-- The interpreter is tracked, and the counter of ids has not come around. -/
structure Tracked (chronicle : Chronicle) (session : Session) : Prop where
  nextId : session.nextId = UInt32.ofNat chronicle.handedOut
  interpreter : session.interpreter.Tracked chronicle

/-! ## Reading -/

variable {setting : Setting} {session : Session} {source : String}

theorem afterReading_nextId (session : Session) (source : String) (budget : Nat) :
    (session.afterReading source).nextId =
      session.nextId + UInt32.ofNat (session.idsDrawn (.run source budget)) := by
  have hparsed := parse_nextId session.mode (scan session.words source).tokens session.nextId
  unfold afterReading read
  dsimp only
  split <;> exact hparsed

/-- What is read has the structure of a program, and its ids were drawn from the counter. -/
theorem read_spec (session : Session) (source : String) :
    Stmt.StructuredAll (session.read source).1 ∧
      ∀ budget, ((Stmt.referencesAll (session.read source).1).map Reference.id).Subperm
        ((List.range (session.idsDrawn (.run source budget))).map fun count =>
          session.nextId + UInt32.ofNat count) := by
  unfold read
  dsimp only
  split
  · rename_i hparsed
    obtain ⟨hstructured, hids⟩ := parse_spec hparsed
    exact ⟨hstructured, fun _ => hids⟩
  · exact ⟨trivial, fun _ => List.nil_subperm⟩

theorem accepted?_spec {program : List Stmt} {distances : List (NodeId × Nat)}
    (h : session.accepted? source = some (program, distances)) :
    Stmt.Accepted program ∧
      distances = (Stmt.occurrencesAll program .top).filterMap Occurrence.recorded? ∧
      ∀ budget, ((Stmt.referencesAll program).map Reference.id).Subperm
        ((List.range (session.idsDrawn (.run source budget))).map fun count =>
          session.nextId + UInt32.ofNat count) := by
  obtain ⟨hstructured, hids⟩ := session.read_spec source
  unfold accepted? at h
  split at h
  · cases h
  · split at h
    · rename_i found hresolve
      obtain ⟨rfl, rfl⟩ := Prod.mk.inj (Option.some.inj h)
      obtain ⟨haccepted, hdistances⟩ := (resolve_eq_ok_iff hstructured).mp hresolve
      exact ⟨haccepted, hdistances, hids⟩
    · cases h

namespace Tracked

variable {chronicle : Chronicle}

theorem drawing (h : session.interpreter.Tracked chronicle) (count : Nat) :
    session.interpreter.Tracked (chronicle.drawing count) := by
  obtain ⟨live, twin, layout, hagree, hcovers, hcurrent⟩ := h
  exact ⟨live, twin, layout, hagree, hcovers.drawing count, hcurrent⟩

/-- Reading moves the counter on. -/
theorem nextId_afterReading (h : session.Tracked chronicle) (budget : Nat) :
    (session.afterReading source).nextId =
      UInt32.ofNat (chronicle.drawing (session.idsDrawn (.run source budget))).handedOut := by
  rw [afterReading_nextId session source budget, h.nextId, ← UInt32.ofNat_add]
  rfl

theorem read (h : session.Tracked chronicle) (source : String) (budget : Nat) :
    (session.afterReading source).Tracked
      (chronicle.drawing (session.idsDrawn (.run source budget))) where
  nextId := h.nextId_afterReading budget
  interpreter := by
    rw [afterReading_interpreter]
    exact drawing h.interpreter _

/-- The ids of a program that is run were drawn after all others. -/
theorem drawn (h : session.Tracked chronicle) {budget : Nat}
    (hsmall : chronicle.handedOut + session.idsDrawn (.run source budget) < 2 ^ 32)
    {program : List Stmt} {distances : List (NodeId × Nat)}
    (haccepted : session.accepted? source = some (program, distances)) :
    Layout.Drawn program chronicle.handedOut (session.idsDrawn (.run source budget)) := by
  obtain ⟨-, -, hids⟩ := accepted?_spec haccepted
  specialize hids budget
  rw [h.nextId] at hids
  obtain ⟨hnodup, hwithin⟩ := nodup_of_drawn hids hsmall
  exact ⟨hnodup, fun reference hmem => hwithin _ (List.mem_map_of_mem hmem)⟩

theorem launch (h : session.Tracked chronicle) {budget : Nat}
    (hsmall : chronicle.handedOut + session.idsDrawn (.run source budget) < 2 ^ 32)
    (hprograms : ∀ program ∈ session.programsOf (.run source budget),
      ∀ occurrence ∈ Stmt.occurrencesAll program .top, chronicle.accepted occurrence)
    {machine : Machine} (hlaunch : session.launch source = some machine) :
    machine.Tracked (chronicle.drawing (session.idsDrawn (.run source budget))) := by
  obtain ⟨⟨program, distances⟩, haccepted, rfl⟩ := Option.map_eq_some_iff.mp hlaunch
  obtain ⟨hprogram, rfl, -⟩ := accepted?_spec haccepted
  have hknown := hprograms program (by simp [programsOf, haccepted])
  exact h.interpreter.launch hprogram hknown (h.drawn hsmall haccepted)

theorem reject {α : Type} (h : session.Tracked chronicle) (errors : List (Located Fault)) :
    (session.reject errors : Except (List (Located Fault)) α × Session).2.Tracked chronicle :=
  ⟨h.nextId, h.interpreter⟩

theorem settle (h : session.Tracked chronicle) {machine : Machine} {budget : Nat}
    (hmachine : (machine.after setting budget).Tracked chronicle)
    (hrest : (machine.after setting budget).atRest = true)
    (hhome : Machine.home machine.frames machine.state.current = machine.state.globals) :
    (session.settle setting (machine.after setting budget)).2.Tracked chronicle := by
  have hcurrent := (Machine.current_of_atRest hrest).trans
    (hhome.trans (Machine.conserves_after setting budget machine).globals.symm)
  have hsettled : Tracked chronicle { session with
      interpreter := (machine.after setting budget).state.collectAtEnd setting } :=
    ⟨h.nextId, hmachine.collectAtEnd hcurrent⟩
  unfold Session.settle
  dsimp only
  split
  · exact hsettled
  · exact hsettled.reject _

/-- A program starts in the global scope. -/
theorem home_launch (h : session.Tracked chronicle) {machine : Machine}
    (hlaunch : session.launch source = some machine) :
    Machine.home machine.frames machine.state.current = machine.state.globals := by
  obtain ⟨⟨program, distances⟩, -, rfl⟩ := Option.map_eq_some_iff.mp hlaunch
  obtain ⟨-, -, -, -, -, hcurrent⟩ := h.interpreter
  cases program <;> exact hcurrent

/-! ## Actions -/

theorem act_run (hnative : setting.NativesMakeNoFunctions) (h : session.Tracked chronicle)
    {budget : Nat}
    (hsmall : chronicle.handedOut + session.idsDrawn (.run source budget) < 2 ^ 32)
    (hprograms : ∀ program ∈ session.programsOf (.run source budget),
      ∀ occurrence ∈ Stmt.occurrencesAll program .top, chronicle.accepted occurrence)
    (hopened : ∀ machine origin, Visits setting session [.run source budget] machine →
      machine.opens? = some origin → chronicle.opened machine.state.scopes.nextId origin)
    {answer : HostAnswer} {next : Session}
    (hact : session.act setting (.run source budget) = .ok (answer, next)) :
    next.Tracked (chronicle.drawing (session.idsDrawn (.run source budget))) := by
  have hread := h.read source budget
  obtain ⟨-, rfl⟩ | ⟨machine, hlaunch, hrest, rfl⟩ := act_run_cases hact
  · exact ⟨hread.nextId, hread.interpreter⟩
  · have hmachine := (h.launch hsmall hprograms hlaunch).after hnative fun k hk origin =>
      hopened _ origin (.running hlaunch (Nat.le_of_lt hk))
    exact hread.settle hmachine hrest (h.home_launch hlaunch)

theorem withRegistry (h : session.Tracked chronicle) (registry : Registry) :
    (session.withRegistry registry).Tracked chronicle := by
  obtain ⟨hnextId, live, twin, layout, ⟨houtside, hs, hg, hc⟩, hcovers, hcurrent⟩ := h
  refine ⟨hnextId, live, { twin with registry }, layout, ⟨?_, hs, hg, hc⟩, ?_, hcurrent⟩
  · rw [houtside]
    rfl
  · exact ⟨hcovers.globals, hcovers.store, hcovers.legit, hcovers.traces⟩

theorem parse (h : session.Tracked chronicle) (source : String) :
    (session.parse source).2.Tracked
      (chronicle.drawing (session.idsDrawn (.parse source))) := by
  have hread := h.read source 0
  rw [parse_eq]
  exact ⟨hread.nextId, hread.interpreter⟩

/-- The global scope may bind any name, to a value that keeps no scope. -/
theorem define (h : session.Tracked chronicle) (name : String) {value : Value}
    (plain : value.closure? = none) :
    Tracked chronicle { session with
      interpreter := session.interpreter.define session.interpreter.globals name value } := by
  obtain ⟨hnextId, live, twin, layout, hagree, hcovers, hcurrent⟩ := h
  have hglobals : twin.globals = session.interpreter.globals := by rw [hagree.outside]
  refine ⟨hnextId, live, _, layout, hagree.define _ name fun closure hc => ?_, ?_, hcurrent⟩
  · rw [plain] at hc
    cases hc
  · refine ⟨hcovers.globals, hcovers.store.define (Layout.admits_of_plain plain) ?_,
      hcovers.legit, fun id hid => hcovers.traces id ?_⟩
    · rw [← hglobals, hcovers.globals, hcovers.store.top]
      trivial
    · rwa [← Scopes.nextId_define]

theorem withEffects (h : session.Tracked chronicle) (effects : Array Effect) :
    Tracked chronicle { session with
      interpreter := { session.interpreter with effects } } := by
  obtain ⟨hnextId, live, twin, layout, ⟨houtside, hs, hg, hc⟩, hcovers, hcurrent⟩ := h
  refine ⟨hnextId, live, { twin with effects }, layout, ⟨?_, hs, hg, hc⟩, ?_, hcurrent⟩
  · rw [houtside]
  · exact ⟨hcovers.globals, hcovers.store, hcovers.legit, hcovers.traces⟩

theorem act (hnative : setting.NativesMakeNoFunctions) (h : session.Tracked chronicle)
    {action : HostAction}
    (hsmall : chronicle.handedOut + session.idsDrawn action < 2 ^ 32)
    (hprograms : ∀ program ∈ session.programsOf action,
      ∀ occurrence ∈ Stmt.occurrencesAll program .top, chronicle.accepted occurrence)
    (hopened : ∀ machine origin, Visits setting session [action] machine →
      machine.opens? = some origin → chronicle.opened machine.state.scopes.nextId origin)
    {answer : HostAnswer} {next : Session}
    (hact : session.act setting action = .ok (answer, next)) :
    next.Tracked (chronicle.drawing (session.idsDrawn action)) := by
  have hsame : chronicle.drawing 0 = chronicle := rfl
  cases action with
  | run source budget => exact h.act_run hnative hsmall hprograms hopened hact
  | parse source =>
    obtain ⟨-, rfl⟩ := Prod.mk.inj (Except.ok.inj hact)
    exact h.parse source
  | setMode mode =>
    obtain ⟨-, rfl⟩ := Prod.mk.inj (Except.ok.inj hact)
    exact ⟨h.nextId, h.interpreter⟩
  | register name module | install module =>
    obtain ⟨-, rfl⟩ := Prod.mk.inj (Except.ok.inj hact)
    exact h.withRegistry _
  | define name value plain =>
    obtain ⟨-, rfl⟩ := Prod.mk.inj (Except.ok.inj hact)
    exact h.define name plain
  | takeEffects =>
    obtain ⟨-, rfl⟩ := Prod.mk.inj (Except.ok.inj hact)
    exact h.withEffects _

/-- Every machine that a history comes past is tracked. -/
theorem visits (hnative : setting.NativesMakeNoFunctions) (h : session.Tracked chronicle)
    {actions : List HostAction}
    (hsmall : chronicle.handedOut + session.handedOut setting actions < 2 ^ 32)
    (hprograms : ∀ program ∈ session.programs setting actions,
      ∀ occurrence ∈ Stmt.occurrencesAll program .top, chronicle.accepted occurrence)
    (hopened : ∀ machine origin, Visits setting session actions machine →
      machine.opens? = some origin → chronicle.opened machine.state.scopes.nextId origin)
    {machine : Machine} (hvisits : Visits setting session actions machine) :
    ∃ count, machine.Tracked (chronicle.drawing count) := by
  induction hvisits generalizing chronicle with
  | @running session source budget n rest machine hlaunch hn =>
    have hfirst : chronicle.handedOut + session.idsDrawn (.run source budget) < 2 ^ 32 :=
      Nat.lt_of_le_of_lt (Nat.add_le_add_left (Nat.le_add_right _ _) _) hsmall
    have hmine := fun program hmem => hprograms program (List.mem_append_left _ hmem)
    refine ⟨_, (h.launch hfirst hmine hlaunch).after hnative fun k hk origin => ?_⟩
    exact hopened _ origin (.running hlaunch (Nat.le_trans (Nat.le_of_lt hk) hn))
  | @later session next action rest answer machine hact _ ih =>
    simp only [handedOut, programs, hact] at hsmall hprograms
    rw [← Nat.add_assoc] at hsmall
    have hnext := h.act hnative (Nat.lt_of_le_of_lt (Nat.le_add_right _ _) hsmall)
      (fun program hmem => hprograms program (List.mem_append_left _ hmem))
      (fun visited origin hvisited => hopened visited origin ?_) hact
    · obtain ⟨count, hmachine⟩ := ih hnext hsmall
        (fun program hmem => hprograms program (List.mem_append_right _ hmem))
        (fun visited origin hvisited => hopened visited origin (.later hact hvisited))
      exact ⟨_, chronicle.drawing_add _ count ▸ hmachine⟩
    · cases hvisited with
      | running hlaunch hn => exact .running hlaunch hn
      | later _ hnil => cases hnil

/-- A session in which a history has ended is tracked, if the chronicle admits anything. -/
theorem serve (hnative : setting.NativesMakeNoFunctions) (h : session.Tracked chronicle)
    (hopened : ∀ id origin, chronicle.opened id origin)
    (haccepted : ∀ occurrence, chronicle.accepted occurrence) {actions : List HostAction}
    (hsmall : chronicle.handedOut + session.handedOut setting actions < 2 ^ 32) {last : Session}
    (hfinished : (session.serve setting actions).2 = .finished last) :
    last.Tracked (chronicle.drawing (session.handedOut setting actions)) := by
  induction actions generalizing session chronicle with
  | nil =>
    obtain rfl := Ending.finished.inj hfinished
    exact h
  | cons action rest ih =>
    unfold Session.serve at hfinished
    unfold handedOut at hsmall ⊢
    revert hfinished hsmall
    cases hact : session.act setting action with
    | ok result =>
      obtain ⟨answer, next⟩ := result
      intro hfinished hsmall
      dsimp only at hfinished hsmall ⊢
      rw [← Nat.add_assoc] at hsmall
      have hnext := h.act hnative (Nat.lt_of_le_of_lt (Nat.le_add_right _ _) hsmall)
        (fun _ _ occurrence _ => haccepted occurrence) (fun _ origin _ _ => hopened _ origin) hact
      rw [chronicle.drawing_add]
      exact ih hnext hopened haccepted hsmall hfinished
    | error machine =>
      intro hfinished
      cases hfinished

end Tracked

/-! ## The initial session -/

theorem tracked_initial (setting : Setting) (sink : Sink) {chronicle : Chronicle}
    (hnone : chronicle.handedOut = 0) : (initial setting sink).Tracked chronicle := by
  have hagree : (Interpreter.initial setting Registry.empty sink).AgreeOn (fun id => id = 0)
      (Interpreter.initial setting Registry.empty sink) := by
    refine ⟨rfl, ⟨rfl, fun _ _ => rfl, ?_, ?_⟩, rfl, rfl⟩
    · rintro id rfl
      exact Nat.zero_lt_one
    · rintro id rfl linked hlinked
      exact absurd hlinked List.not_mem_nil
  let layout : Layout := ⟨0, fun _ => .top, fun _ => False⟩
  have hblank : layout.Sound (Scopes.empty.add none) := by
    refine ⟨Nat.zero_lt_one, rfl, rfl, fun id name value hbinds => ?_⟩
    obtain ⟨scope, hfound, -⟩ := hbinds.of_add
    cases hfound
  refine ⟨?_, _, _, layout, hagree, ⟨rfl, ?_, ?_, ?_⟩, rfl⟩
  · rw [hnone]
    rfl
  · exact hblank.define (Layout.admits_of_plain rfl) trivial
  · refine ⟨fun _ hknown => hknown.elim, fun _ hknown => hknown.elim,
      fun _ hknown => hknown.elim, fun _ _ hknown => hknown.elim, fun _ _ hknown => hknown.elim,
      fun id distance hfound => ?_⟩
    have hnone : (∅ : Std.HashMap NodeId Nat)[id]? = none := Std.HashMap.getElem?_empty
    rw [show (Interpreter.initial setting Registry.empty sink).distances = ∅ from rfl,
      hnone] at hfound
    cases hfound
  · intro id hid
    exact .inl (Nat.lt_one_iff.mp hid)

/-- A session with a history is tracked by a chronicle that only counts ids. -/
theorem tracked_of_finished (hnative : setting.NativesMakeNoFunctions) {sink : Sink}
    {actions : List HostAction}
    (hfinished : ((initial setting sink).serve setting actions).2 = .finished session)
    (hsmall : (initial setting sink).handedOut setting actions < 2 ^ 32) :
    session.Tracked (.counting ((initial setting sink).handedOut setting actions)) := by
  have hinitial : (initial setting sink).Tracked (.counting 0) := tracked_initial setting sink rfl
  rw [← Nat.zero_add ((initial setting sink).handedOut setting actions)]
  refine hinitial.serve hnative (fun _ _ => trivial) (fun _ => trivial) ?_ hfinished
  rwa [Chronicle.counting, Nat.zero_add]

end CommandScript.Session
