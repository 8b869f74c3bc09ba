import CommandScript.Proofs.Machine.Agreement
import CommandScript.Proofs.Session.History

/-!
# Collections are invisible

A host that collects scopes and one that never does are led through the same history.
Their sessions differ only in scopes out of reach and in the scopes that are tracked: the
machines of a run agree step by step, and a collection, which only comes between two
statements of a program or after the last, severs nothing in use. So both hosts get the
same answers, write the same output and deliver the same commands.

* `Session.AgreeOn`: sessions whose interpreters agree on the scopes in use.
* `Session.AgreeOn.act`: an action keeps sessions in agreement.
* `serve_eq_serve_keeping`: the answers and effects of a history do not depend on
  collections.
-/

namespace CommandScript.Session

structure AgreeOn (live : ScopeId → Prop) (left right : Session) : Prop where
  outside : right = { left with interpreter := right.interpreter }
  interpreter : left.interpreter.AgreeOn live right.interpreter

/-- The sessions agree on some scopes. -/
def Agree (left right : Session) : Prop := ∃ live, AgreeOn live left right

/-- Results of an action that a host cannot tell apart, and sessions that agree. -/
inductive SameResult : Except (Option Machine) (HostAnswer × Session) →
    Except (Option Machine) (HostAnswer × Session) → Prop where
  | done {answer : HostAnswer} {left right : Session} :
      Agree left right → SameResult (.ok (answer, left)) (.ok (answer, right))
  | exhausted {live : ScopeId → Prop} {left right : Machine} :
      left.AgreeOn live right → SameResult (.error (some left)) (.error (some right))

/-! ## The initial session -/

theorem agree_initial (setting : Setting) (sink : Sink) :
    Agree (initial setting sink) (initial setting.keeping sink) := by
  refine ⟨fun id => id = 0, rfl, rfl, ⟨rfl, fun id _ => rfl, ?_, ?_⟩, rfl, rfl⟩
  · rintro id rfl
    exact Nat.zero_lt_one
  · rintro id rfl linked hlinked
    exact absurd hlinked List.not_mem_nil

/-! ## Actions -/

namespace AgreeOn

variable {setting : Setting} {live : ScopeId → Prop} {left right : Session}

/-- Reading an input does not touch the interpreter, and does not look at it. -/
theorem read_eq (h : AgreeOn live left right) (source : String) :
    (right.read source).1 = (left.read source).1 ∧
      AgreeOn live (left.afterReading source) (right.afterReading source) := by
  obtain ⟨outside, hi⟩ := h
  rw [outside]
  unfold afterReading read
  dsimp only
  split <;> exact ⟨rfl, rfl, hi⟩

theorem diagnostics_eq (h : AgreeOn live left right) (source : String) :
    (right.afterReading source).diagnostics = (left.afterReading source).diagnostics := by
  rw [(h.read_eq source).2.outside]

theorem accepted?_eq (h : AgreeOn live left right) (source : String) :
    right.accepted? source = left.accepted? source := by
  unfold accepted?
  rw [(h.read_eq source).1, h.diagnostics_eq source]

theorem takeErrors (h : AgreeOn live left right) :
    right.takeErrors.1 = left.takeErrors.1 ∧
      AgreeOn live left.takeErrors.2 right.takeErrors.2 := by
  obtain ⟨outside, hi⟩ := h
  rw [outside]
  exact ⟨rfl, rfl, hi⟩

theorem withDiagnostics (h : AgreeOn live left right) (diagnostics : Diagnostics) :
    AgreeOn live { left with diagnostics } { right with diagnostics } where
  outside := by rw [h.outside]
  interpreter := h.interpreter

theorem reject (α : Type) (h : AgreeOn live left right) (errors : List (Located Fault)) :
    (right.reject errors : Except (List (Located Fault)) α × Session).1 =
        (left.reject errors).1 ∧
      AgreeOn live (left.reject errors : Except (List (Located Fault)) α × Session).2
        (right.reject errors : Except (List (Located Fault)) α × Session).2 := by
  have hdiagnostics : right.diagnostics = left.diagnostics := by
    rw [h.outside]
  obtain ⟨herrors, hsession⟩ :=
    (h.withDiagnostics (left.diagnostics.reportAll errors)).takeErrors
  unfold Session.reject
  rw [hdiagnostics]
  exact ⟨congrArg Except.error herrors, hsession⟩

theorem rejected (h : AgreeOn live left right) (source : String) :
    (right.rejected source).1 = (left.rejected source).1 ∧
      AgreeOn live (left.rejected source).2 (right.rejected source).2 := by
  obtain ⟨hprogram, hread⟩ := h.read_eq source
  unfold Session.rejected
  dsimp only
  rw [hprogram, h.diagnostics_eq source]
  exact (hread.withDiagnostics _).takeErrors

/-- Either no input is run, or the machines that run it agree. -/
theorem launch (h : AgreeOn live left right) {source : String} {machine : Machine}
    (hm : left.launch source = some machine) :
    ∃ other, right.launch source = some other ∧ machine.AgreeOn live other := by
  obtain ⟨⟨program, distances⟩, haccepted, rfl⟩ := Option.map_eq_some_iff.mp hm
  refine ⟨_, ?_, Machine.agreeOn_start (h.interpreter.addDistances distances) program⟩
  rw [Session.launch, h.accepted?_eq, haccepted]
  rfl

theorem settle (setting : Setting) (h : AgreeOn live left right) {machine other : Machine}
    {reached : ScopeId → Prop} (hm : machine.AgreeOn reached other) :
    (right.settle setting.keeping other).1 = (left.settle setting machine).1 ∧
      Agree (left.settle setting machine).2 (right.settle setting.keeping other).2 := by
  have houtcome : other.state.sink.flushFails = machine.state.sink.flushFails := by
    rw [hm.state.outside]
  obtain ⟨final, hfinal⟩ := hm.state.collectAtEnd setting
  have hsession : AgreeOn final
      { left with interpreter := machine.state.collectAtEnd setting }
      { right with interpreter := other.state.collectAtEnd setting.keeping } :=
    ⟨by rw [h.outside], hfinal⟩
  unfold Session.settle
  dsimp only
  rw [houtcome, ← hm.control_eq]
  split
  · exact ⟨rfl, final, hsession⟩
  · obtain ⟨hresult, hrejected⟩ := hsession.reject Status [_]
    exact ⟨hresult, final, hrejected⟩

theorem act_run (hnative : setting.NativesMakeNoFunctions) (h : AgreeOn live left right)
    (source : String) (budget : Nat) :
    SameResult (left.act setting (.run source budget))
      (right.act setting.keeping (.run source budget)) := by
  cases hlaunch : left.launch source with
  | none =>
    have hleft : left.accepted? source = none := Option.map_eq_none_iff.mp hlaunch
    have hright : right.accepted? source = none := by rw [h.accepted?_eq, hleft]
    obtain ⟨hfaults, hsession⟩ := h.rejected source
    simp only [act, run_of_rejected hleft, run_of_rejected hright, hfaults]
    exact .done ⟨live, hsession⟩
  | some machine =>
    obtain ⟨other, hother, hm⟩ := h.launch hlaunch
    obtain ⟨reached, hafter⟩ := hm.after hnative budget
    have hrest : (other.after setting.keeping budget).atRest =
        (machine.after setting budget).atRest := by
      rw [Machine.atRest, Machine.atRest, hafter.control_eq, hafter.frames_eq]
    simp only [act, run_of_launch hlaunch, run_of_launch hother, Machine.run_eq_ite, hrest,
      hlaunch, hother]
    cases hatRest : (machine.after setting budget).atRest with
    | true =>
      obtain ⟨hread, hsession⟩ := h.read_eq source
      obtain ⟨hresult, hagree⟩ := hsession.settle setting hafter
      simp only [if_true, Option.map_some, hresult]
      exact .done hagree
    | false => exact .exhausted hafter

theorem withRegistry (h : AgreeOn live left right) (registry : Registry) :
    AgreeOn live (left.withRegistry registry) (right.withRegistry registry) := by
  obtain ⟨outside, houtside, hs, hg, hc⟩ := h
  rw [outside, houtside]
  exact ⟨rfl, rfl, hs, hg, hc⟩

theorem act (hnative : setting.NativesMakeNoFunctions) (h : AgreeOn live left right)
    (action : HostAction) :
    SameResult (left.act setting action) (right.act setting.keeping action) := by
  have hregistry : right.interpreter.registry = left.interpreter.registry := by
    rw [h.interpreter.outside]
  cases action with
  | run source budget => exact h.act_run hnative source budget
  | parse source =>
    obtain ⟨hprogram, hread⟩ := h.read_eq source
    have hdiagnostics := h.diagnostics_eq source
    unfold afterReading at hread hdiagnostics
    simp only [Session.act, Session.parse, hprogram, hdiagnostics]
    split
    · obtain ⟨hresult, hsession⟩ := hread.reject (List Stmt) []
      rw [hresult]
      exact .done ⟨live, hsession⟩
    · exact .done ⟨live, hread⟩
  | setMode mode => exact .done ⟨live, by rw [h.outside], h.interpreter⟩
  | register name module =>
    simp only [Session.act, Session.register, hregistry]
    exact .done ⟨live, h.withRegistry _⟩
  | install module =>
    simp only [Session.act, Session.install, hregistry]
    exact .done ⟨live, h.withRegistry _⟩
  | define name value plain =>
    have hglobals : right.interpreter.globals = left.interpreter.globals := by
      rw [h.interpreter.outside]
    have hvalue : value.Within live := by
      intro closure hc
      rw [plain] at hc
      cases hc
    simp only [Session.act, hglobals]
    exact .done ⟨live, by rw [h.outside], h.interpreter.define _ _ hvalue⟩
  | takeEffects =>
    obtain ⟨outside, houtside, hs, hg, hc⟩ := h
    rw [outside, houtside]
    exact .done ⟨live, rfl, rfl, hs, hg, hc⟩

theorem serve (hnative : setting.NativesMakeNoFunctions) (h : AgreeOn live left right)
    (actions : List HostAction) :
    (left.serve setting actions).1 = (right.serve setting.keeping actions).1 ∧
      (left.serve setting actions).2.effects =
        (right.serve setting.keeping actions).2.effects := by
  induction actions generalizing live left right with
  | nil =>
    refine ⟨rfl, ?_⟩
    simp only [Session.serve, Ending.effects]
    rw [h.interpreter.outside]
  | cons action rest ih =>
    have hact := h.act hnative action
    unfold Session.serve
    revert hact
    generalize left.act setting action = result
    generalize right.act setting.keeping action = result'
    intro hact
    cases hact with
    | done hagree =>
      obtain ⟨reached, hagree⟩ := hagree
      obtain ⟨hanswers, heffects⟩ := ih hagree
      exact ⟨congrArg (_ :: ·) hanswers, heffects⟩
    | exhausted hagree =>
      refine ⟨rfl, ?_⟩
      simp only [Ending.effects]
      rw [hagree.state.outside]

end AgreeOn

/-- **Collections are invisible.** Whatever number of tracked scopes makes a collection
due, a history gets the answers and has the effects that it gets and has without any
collection. -/
theorem serve_eq_serve_keeping (setting : Setting) (hnative : setting.NativesMakeNoFunctions)
    (sink : Sink) (actions : List HostAction) :
    ((initial setting sink).serve setting actions).1 =
        ((initial setting.keeping sink).serve setting.keeping actions).1 ∧
      ((initial setting sink).serve setting actions).2.effects =
        ((initial setting.keeping sink).serve setting.keeping actions).2.effects := by
  obtain ⟨live, hagree⟩ := agree_initial setting sink
  exact hagree.serve hnative actions

/-- A host whose only native tells the time, and that collects from the first tracked
scope on. -/
theorem serve_eq_serve_keeping_of_clock :
    let setting : Setting := ⟨.resolved, some 1, fun _ _ _ => .ok (.number 0)⟩
    let actions : List HostAction :=
      [.run "fun make() { var n = clock(); fun next() { n = n + 1; return n; } return next; }" 50,
        .run "var next = make(); { fun lost() { return next; } } print next();" 200]
    setting.NativesMakeNoFunctions ∧
      ((initial setting .unlimited).serve setting actions).1 =
        ((initial setting.keeping .unlimited).serve setting.keeping actions).1 ∧
      ((initial setting .unlimited).serve setting actions).2.effects =
        ((initial setting.keeping .unlimited).serve setting.keeping actions).2.effects := by
  intro setting actions
  have hnative : setting.NativesMakeNoFunctions := by
    intro native args line value h
    cases h
    exact .inl rfl
  exact ⟨hnative, serve_eq_serve_keeping setting hnative .unlimited actions⟩

end CommandScript.Session
