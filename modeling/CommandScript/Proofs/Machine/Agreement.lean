import CommandScript.Proofs.Machine.Course
import CommandScript.Proofs.Machine.Grounded
import CommandScript.Proofs.Machine.Held
import CommandScript.Proofs.Scope.Agreement

/-!
# Machines that agree on the scopes in use

Two machines agree if they do the same thing next, with the same frames, in states that
differ at most in scopes that neither of them can reach, and in the scopes that they
track. Then they take the same step. This includes the end of a statement of the program:
at that point no frame and no value is left that keeps a scope, so a collection on one
side severs nothing in use.

* `Interpreter.AgreeOn`, `Machine.AgreeOn`: agreement on a set of scopes.
* `Machine.AgreeOn.step`: machines that agree do so after a step, on another set of scopes,
  whatever the two settings say about collections.
-/

namespace CommandScript

/-- The same setting for a host that never collects scopes. -/
def Setting.keeping (setting : Setting) : Setting := { setting with collectFrom := none }

/-- A native makes no function value: a function that it answers was among its arguments. -/
def Setting.NativesMakeNoFunctions (setting : Setting) : Prop :=
  ∀ native args line value, setting.native native args line = .ok value →
    value.closure? = none ∨ value ∈ args

namespace Interpreter

/-- The scope that a reference means binds its name. -/
theorem local?_of_target? (state : Interpreter) {rule : LookupRule} {id : NodeId}
    {name : String} {found : ScopeId} (h : state.target? rule id name = some found) :
    (state.scopes.local? found name).isSome := by
  unfold target? at h
  split at h
  · exact Scopes.local?_of_nearest? h
  · split at h
    · exact (Option.filter_eq_some_iff.mp h).2
    · exact Scopes.local?_of_nearest? h

/-- The collection at the end of a run changes the scopes only, and which are tracked. -/
theorem collectAtEnd_eq (setting : Setting) (state : Interpreter) :
    state.collectAtEnd setting =
      { state with
        scopes := (state.collectAtEnd setting).scopes
        captured := (state.collectAtEnd setting).captured } := by
  unfold collectAtEnd
  split
  · split <;> rfl
  · rfl

structure AgreeOn (live : ScopeId → Prop) (left right : Interpreter) : Prop where
  outside : right = { left with scopes := right.scopes, captured := right.captured }
  scopes : left.scopes.AgreeOn live right.scopes
  globals : live left.globals
  current : live left.current

namespace AgreeOn

variable {live : ScopeId → Prop} {left right : Interpreter}

theorem target?_eq (h : AgreeOn live left right) (rule : LookupRule) (id : NodeId)
    (name : String) : left.target? rule id name = right.target? rule id name := by
  obtain ⟨outside, hs, hg, hc⟩ := h
  rw [outside]
  cases rule with
  | byName => exact hs.nearest?_eq hc name
  | resolved =>
    simp only [target?]
    cases left.distances[id]? with
    | none => exact hs.nearest?_eq hg name
    | some distance =>
      simp only [← hs.ancestor?_eq hc distance]
      cases hfound : left.scopes.ancestor? left.current distance with
      | none => rfl
      | some found =>
        simp only [Option.filter, hs.local?_eq (hs.live_ancestor? hc hfound)]

theorem live_target? (h : AgreeOn live left right) {rule : LookupRule} {id : NodeId}
    {name : String} {found : ScopeId} (hfound : left.target? rule id name = some found) :
    live found := by
  unfold target? at hfound
  split at hfound
  · exact h.scopes.live_nearest? h.current hfound
  · split at hfound
    · exact h.scopes.live_ancestor? h.current (Option.filter_eq_some_iff.mp hfound).1
    · exact h.scopes.live_nearest? h.globals hfound

theorem lookUp?_eq (h : AgreeOn live left right) (rule : LookupRule) (id : NodeId)
    (name : String) : left.lookUp? rule id name = right.lookUp? rule id name := by
  rw [lookUp?, lookUp?, ← h.target?_eq]
  cases hfound : left.target? rule id name with
  | none => rfl
  | some found => exact h.scopes.local?_eq (h.live_target? hfound) name

theorem lookUp?_within (h : AgreeOn live left right) {rule : LookupRule} {id : NodeId}
    {name : String} {value : Value} (hread : left.lookUp? rule id name = some value) :
    value.Within live := by
  obtain ⟨found, hfound, hvalue⟩ := Option.bind_eq_some_iff.mp hread
  exact h.scopes.binds_within (h.live_target? hfound) (Scopes.binds_of_local? hvalue)

theorem current_eq (h : AgreeOn live left right) : right.current = left.current := by
  rw [h.outside]

theorem callDepth_eq (h : AgreeOn live left right) : right.callDepth = left.callDepth := by
  rw [h.outside]

/-! ## Changes of the state -/

theorem withDepth (h : AgreeOn live left right) (depth : Nat) :
    AgreeOn live { left with callDepth := depth } { right with callDepth := depth } where
  outside := by rw [h.outside]
  scopes := h.scopes
  globals := h.globals
  current := h.current

theorem withCurrent (h : AgreeOn live left right) {id : ScopeId} (hid : live id) :
    AgreeOn live { left with current := id } { right with current := id } where
  outside := by rw [h.outside]
  scopes := h.scopes
  globals := h.globals
  current := hid

theorem write (h : AgreeOn live left right) (text : String) :
    AgreeOn live (left.write text).1 (right.write text).1 ∧
      (left.write text).2 = (right.write text).2 := by
  obtain ⟨outside, hs, hg, hc⟩ := h
  rw [outside]
  exact ⟨⟨rfl, hs, hg, hc⟩, rfl⟩

theorem carryOut (h : AgreeOn live left right) (request : Request) :
    AgreeOn live (left.carryOut request).1 (right.carryOut request).1 ∧
      (left.carryOut request).2 = (right.carryOut request).2 := by
  obtain ⟨outside, hs, hg, hc⟩ := h
  rw [outside]
  exact ⟨⟨rfl, hs, hg, hc⟩, rfl⟩

theorem addDistances (h : AgreeOn live left right) (distances : List (NodeId × Nat)) :
    AgreeOn live (left.addDistances distances) (right.addDistances distances) := by
  obtain ⟨outside, hs, hg, hc⟩ := h
  rw [outside]
  exact ⟨rfl, hs, hg, hc⟩

theorem define (h : AgreeOn live left right) (id : ScopeId) (name : String) {value : Value}
    (hv : value.Within live) :
    AgreeOn live (left.define id name value) (right.define id name value) where
  outside := by rw [h.outside]; rfl
  scopes := h.scopes.define id name hv
  globals := h.globals
  current := h.current

theorem bindAll (h : AgreeOn live left right) (id : ScopeId) (names : List String)
    {values : List Value} (hv : ∀ value ∈ values, value.Within live) :
    AgreeOn live (left.bindAll id names values) (right.bindAll id names values) := by
  induction names generalizing left right values with
  | nil => cases values <;> exact h
  | cons name names ih =>
    cases values with
    | nil => exact h
    | cons value values =>
      obtain ⟨hvalue, hvalues⟩ := List.forall_mem_cons.mp hv
      exact ih (h.define id name hvalue) hvalues

theorem enter (h : AgreeOn live left right) {parent : ScopeId} (hp : live parent) :
    AgreeOn (fun id => live id ∨ id = left.scopes.nextId) (left.enter parent)
      (right.enter parent) where
  outside := by
    rw [h.outside]
    simp only [Interpreter.enter, h.scopes.nextId_eq]
  scopes := h.scopes.add hp
  globals := .inl h.globals
  current := .inr rfl

theorem trackCurrent (h : AgreeOn live left right) :
    AgreeOn live left.trackCurrent right.trackCurrent := by
  obtain ⟨outside, hs, hg, hc⟩ := h
  rw [outside]
  simp only [Interpreter.trackCurrent]
  split <;> exact ⟨rfl, hs, hg, hc⟩

theorem declareFunction (h : AgreeOn live left right) (decl : FunctionDecl) :
    AgreeOn live (left.declareFunction decl) (right.declareFunction decl) := by
  have htracked := h.trackCurrent
  have hadvanced : AgreeOn live left.trackCurrent.advanceIdentity
      right.trackCurrent.advanceIdentity :=
    ⟨by rw [htracked.outside]; rfl, htracked.scopes, htracked.globals, htracked.current⟩
  have hvalue : (Value.function decl left.current left.nextIdentity).Within live := by
    intro closure hc
    exact Option.some.inj hc ▸ h.current
  have hidentity : right.nextIdentity = left.nextIdentity := by
    rw [h.outside]
  unfold Interpreter.declareFunction
  rw [h.current_eq, hidentity]
  exact hadvanced.define left.current decl.name hvalue

theorem collect (h : AgreeOn live left right) (minimum : Nat) :
    ∃ reached, AgreeOn reached (left.collect minimum) right := by
  refine ⟨_, ?_, h.scopes.collect left.captured minimum [left.globals, left.current], ?_, ?_⟩
  · exact h.outside
  · exact ⟨h.globals, Scopes.marked_root (h.scopes.lt_nextId _ h.globals) List.mem_cons_self⟩
  · exact ⟨h.current, Scopes.marked_root (h.scopes.lt_nextId _ h.current)
      (List.mem_cons_of_mem _ List.mem_cons_self)⟩

theorem collectIfDue (h : AgreeOn live left right) (setting : Setting) :
    ∃ reached, AgreeOn reached (left.collectIfDue setting)
      (right.collectIfDue setting.keeping) := by
  have hright : right.collectIfDue setting.keeping = right := rfl
  rw [hright]
  unfold Interpreter.collectIfDue
  split
  · split
    · exact h.collect _
    · exact ⟨live, h⟩
  · exact ⟨live, h⟩

theorem collectAtEnd (h : AgreeOn live left right) (setting : Setting) :
    ∃ reached, AgreeOn reached (left.collectAtEnd setting)
      (right.collectAtEnd setting.keeping) := by
  have hright : right.collectAtEnd setting.keeping = right := rfl
  rw [hright]
  unfold Interpreter.collectAtEnd
  split
  · split
    · exact ⟨live, h⟩
    · exact h.collect _
  · exact ⟨live, h⟩

end AgreeOn

end Interpreter

namespace Machine

structure AgreeOn (live : ScopeId → Prop) (left right : Machine) : Prop where
  control_eq : left.control = right.control
  frames_eq : left.frames = right.frames
  state : left.state.AgreeOn live right.state
  holds : left.Holds (Value.Within live) live
  grounded : Grounded left.frames

theorem agreeOn_start {live : ScopeId → Prop} {left right : Interpreter}
    (h : left.AgreeOn live right) (program : List Stmt) :
    (left.start program).AgreeOn live (right.start program) := by
  cases program with
  | nil => exact ⟨rfl, rfl, h, ⟨trivial, fun _ hnil => by cases hnil⟩, trivial⟩
  | cons stmt rest =>
    refine ⟨rfl, rfl, h, ⟨trivial, fun frame hframe => ?_⟩, rfl⟩
    obtain rfl := List.mem_singleton.mp hframe
    exact trivial

/-- The two machines do the same thing next, in states that agree. -/
def SameBut (live : ScopeId → Prop) (left right : Machine) : Prop :=
  left.control = right.control ∧ left.frames = right.frames ∧ left.state.AgreeOn live right.state

/-- What is kept of `live` and what is new in use after a step. -/
def Widened (live : ScopeId → Prop) (left right : Machine) : Prop :=
  ∃ wider, (∀ id, live id → wider id) ∧ SameBut wider left right

theorem SameBut.widened {live : ScopeId → Prop} {left right : Machine}
    (h : SameBut live left right) : Widened live left right :=
  ⟨live, fun _ hid => hid, h⟩

section Steps

variable {setting : Setting} {live : ScopeId → Prop} {left right : Interpreter}

theorem sameBut_of_state (h : left.AgreeOn live right) (control : Control)
    (frames : List Frame) : SameBut live ⟨control, frames, left⟩ ⟨control, frames, right⟩ :=
  ⟨rfl, rfl, h⟩

theorem widened_enterBody (h : left.AgreeOn live right) (decl : FunctionDecl)
    {closure : ScopeId} (hclosure : live closure) {args : List Value}
    (hargs : ∀ arg ∈ args, arg.Within live) (frames : List Frame) :
    Widened live (enterBody decl closure args frames left)
      (enterBody decl closure args frames right) := by
  have hentered := h.enter hclosure
  have hwide : ∀ arg ∈ args, arg.Within fun id => live id ∨ id = left.scopes.nextId :=
    fun arg harg closure hc => .inl (hargs arg harg closure hc)
  refine ⟨fun id => live id ∨ id = left.scopes.nextId, fun id hid => .inl hid, rfl, ?_, ?_⟩
  · simp only [enterBody, h.current_eq]
  · simp only [enterBody, hentered.current_eq]
    exact hentered.bindAll _ _ hwide

theorem widened_call (h : left.AgreeOn live right) {callee : Value}
    (hcallee : callee.Within live) {args : List Value}
    (hargs : ∀ arg ∈ args, arg.Within live) (line : Nat) (frames : List Frame) :
    Widened live (call setting callee args line frames left)
      (call setting.keeping callee args line frames right) := by
  unfold call
  split
  · split
    · exact (sameBut_of_state h _ _).widened
    · rw [h.callDepth_eq]
      split
      · exact (sameBut_of_state h _ _).widened
      · exact widened_enterBody (h.withDepth _) _ (hcallee _ rfl) hargs _
  · split
    · exact (sameBut_of_state h _ _).widened
    · rw [h.callDepth_eq]
      split
      · exact (sameBut_of_state h _ _).widened
      · simp only [Setting.keeping, answer]
        split <;> exact (sameBut_of_state h _ _).widened
  · exact (sameBut_of_state h _ _).widened

theorem widened_nextArgument (h : left.AgreeOn live right) {callee : Value}
    (hcallee : callee.Within live) {before : List Value}
    (hbefore : ∀ arg ∈ before, arg.Within live) (rest : List Expr) (line : Nat)
    (frames : List Frame) :
    Widened live (nextArgument setting callee before rest line frames left)
      (nextArgument setting.keeping callee before rest line frames right) := by
  unfold nextArgument
  split
  · exact widened_call h hcallee (fun arg harg => hbefore arg (List.mem_reverse.mp harg)) _ _
  · exact (sameBut_of_state h _ _).widened

theorem widened_stepEval (h : left.AgreeOn live right) (expr : Expr) (frames : List Frame) :
    Widened live (stepEval setting expr frames left)
      (stepEval setting.keeping expr frames right) := by
  unfold stepEval
  split
  case h_6 id name line =>
    simp only [Setting.keeping, ← h.lookUp?_eq]
    split <;> exact (sameBut_of_state h _ _).widened
  all_goals exact (sameBut_of_state h _ _).widened

theorem widened_stepExec (h : left.AgreeOn live right) (stmt : Stmt) (frames : List Frame) :
    Widened live (stepExec stmt frames left) (stepExec stmt frames right) := by
  unfold stepExec
  split
  case h_1 body =>
    rw [h.current_eq]
    exact ⟨_, fun id hid => .inl hid, rfl, rfl, h.enter h.current⟩
  case h_9 name line =>
    rw [h.current_eq]
    exact (sameBut_of_state (h.define _ _ fun _ hc => by cases hc) _ _).widened
  case h_10 name params body line =>
    exact (sameBut_of_state (h.declareFunction _) _ _).widened
  case h_12 topic line =>
    obtain ⟨hstate, hstatus⟩ := h.carryOut (.help topic)
    revert hstate hstatus
    generalize left.carryOut (.help topic) = carried
    generalize right.carryOut (.help topic) = carried'
    obtain ⟨_, status⟩ := carried
    obtain ⟨_, status'⟩ := carried'
    rintro hstate (rfl : status = status')
    cases status <;> exact (sameBut_of_state hstate _ _).widened
  all_goals exact (sameBut_of_state h _ _).widened

theorem widened_stepGather (h : left.AgreeOn live right) (gathering : Gathering)
    (frames : List Frame) :
    Widened live (stepGather gathering frames left) (stepGather gathering frames right) := by
  unfold stepGather
  split
  · split <;> exact (sameBut_of_state h _ _).widened
  · split
    case h_1 => exact (sameBut_of_state (h.carryOut _).1 _ _).widened
    all_goals exact (sameBut_of_state h _ _).widened

theorem widened_stepValue (h : left.AgreeOn live right) {value : Value}
    (hv : value.Within live) {frame : Frame} (hframe : frame.Holds (Value.Within live) live)
    (frames : List Frame) :
    Widened live (stepValue setting value frame frames left)
      (stepValue setting.keeping value frame frames right) := by
  have hdeliver : ∀ outcome line, Widened live (deliver outcome line frames left)
      (deliver outcome line frames right) := by
    intro outcome line
    cases outcome <;> exact (sameBut_of_state h _ _).widened
  unfold stepValue
  split
  case h_1 op line => exact hdeliver _ _
  case h_3 op left line => exact hdeliver _ _
  case h_4 op right =>
    split <;> exact (sameBut_of_state h _ _).widened
  case h_5 id name line =>
    simp only [Setting.keeping, ← h.target?_eq]
    split
    · exact (sameBut_of_state (h.define _ _ hv) _ _).widened
    · exact (sameBut_of_state h _ _).widened
  case h_6 args line =>
    exact widened_nextArgument h hv (fun _ hnil => by cases hnil) _ _ _
  case h_7 callee before rest line =>
    exact widened_nextArgument h hframe.1 (List.forall_mem_cons.mpr ⟨hv, hframe.2⟩) _ _ _
  case h_9 line =>
    obtain ⟨hstate, hcomplete⟩ := h.write (value.text ++ "
")
    revert hstate hcomplete
    generalize left.write (value.text ++ "
") = written
    generalize right.write (value.text ++ "
") = written'
    obtain ⟨_, complete⟩ := written
    obtain ⟨_, complete'⟩ := written'
    rintro hstate (rfl : complete = complete')
    cases complete <;> exact (sameBut_of_state hstate _ _).widened
  case h_10 name =>
    rw [h.current_eq]
    exact (sameBut_of_state (h.define _ _ hv) _ _).widened
  case h_12 thenBranch elseBranch =>
    split
    · exact (sameBut_of_state h _ _).widened
    · split <;> exact (sameBut_of_state h _ _).widened
  case h_13 condition body =>
    split <;> exact (sameBut_of_state h _ _).widened
  all_goals exact (sameBut_of_state h _ _).widened

theorem widened_stepDone (h : left.AgreeOn live right) {frame : Frame}
    (hframe : frame.Holds (Value.Within live) live) (frames : List Frame)
    (hprogram : ∀ rest, frame ≠ .program rest) :
    Widened live (stepDone setting frame frames left)
      (stepDone setting.keeping frame frames right) := by
  unfold stepDone
  split
  case h_3 outer => exact (sameBut_of_state (h.withCurrent hframe) _ _).widened
  case h_4 =>
    rw [h.callDepth_eq]
    exact (sameBut_of_state (h.withDepth _) _ _).widened
  case h_6 => exact absurd rfl (hprogram _)
  case h_7 => exact absurd rfl (hprogram _)
  all_goals exact (sameBut_of_state h _ _).widened

theorem sameBut_stepReturning (h : left.AgreeOn live right) (value : Value) {frame : Frame}
    (hframe : frame.Holds (Value.Within live) live) (frames : List Frame) :
    SameBut live (stepReturning value frame frames left)
      (stepReturning value frame frames right) := by
  unfold stepReturning
  split
  · exact sameBut_of_state (h.withCurrent hframe) _ _
  · rw [h.callDepth_eq]
    exact sameBut_of_state (h.withDepth _) _ _
  all_goals exact sameBut_of_state h _ _

theorem sameBut_stepHalting (h : left.AgreeOn live right) (halt : Halt) {frame : Frame}
    (hframe : frame.Holds (Value.Within live) live) (frames : List Frame) :
    SameBut live (stepHalting halt frame frames left) (stepHalting halt frame frames right) := by
  unfold stepHalting
  split
  · exact sameBut_of_state (h.withCurrent hframe) _ _
  · rw [h.callDepth_eq]
    exact sameBut_of_state (h.withDepth _) _ _
  · exact sameBut_of_state h _ _

end Steps

namespace AgreeOn

variable {setting : Setting} {live : ScopeId → Prop} {left right : Machine}

theorem within_mono {wider : ScopeId → Prop} (hwider : ∀ id, live id → wider id)
    {machine : Machine} (h : machine.Holds (Value.Within live) live) :
    machine.Holds (Value.Within wider) wider :=
  h.mono (fun _ hv closure hc => hwider closure (hv closure hc)) hwider

theorem supplies (hnative : setting.NativesMakeNoFunctions) {wider : ScopeId → Prop}
    (hwider : ∀ id, live id → wider id) (h : AgreeOn live left right) :
    Supplies setting (Value.Within wider) wider left.state where
  plain value hplain closure hc := by
    rw [hplain] at hc
    cases hc
  read id name value hread closure hc := hwider closure (h.state.lookUp?_within hread closure hc)
  native native args line value hargs hok := by
    rcases hnative native args line value hok with hplain | hmem
    · intro closure hc
      rw [hplain] at hc
      cases hc
    · exact hargs value hmem
  current := hwider _ h.state.current

theorem of_widened (hnative : setting.NativesMakeNoFunctions) (h : AgreeOn live left right)
    (hstep : Widened live (left.step setting) (right.step setting.keeping)) :
    ∃ wider, AgreeOn wider (left.step setting) (right.step setting.keeping) := by
  obtain ⟨wider, hwider, hcontrol, hframes, hstate⟩ := hstep
  exact ⟨wider, hcontrol, hframes, hstate,
    (within_mono hwider h.holds).step (supplies hnative hwider h), h.grounded.step⟩

/-- Between the statements of a program no frame and no value keeps a scope. -/
theorem step_program (h : AgreeOn live left right) (hdone : left.control = .done)
    {rest : List Stmt} (hframes : left.frames = [.program rest]) :
    ∃ reached, AgreeOn reached (left.step setting) (right.step setting.keeping) := by
  obtain ⟨control, frames, state⟩ := left
  obtain ⟨control', frames', state'⟩ := right
  obtain ⟨rfl, rfl, hstate, -, -⟩ := h
  obtain rfl : control = .done := hdone
  obtain rfl : frames = [.program rest] := hframes
  obtain ⟨reached, hreached⟩ := hstate.collectIfDue setting
  refine ⟨reached, ?_⟩
  cases rest with
  | nil => exact ⟨rfl, rfl, hreached, ⟨trivial, fun _ hnil => by cases hnil⟩, trivial⟩
  | cons stmt rest =>
    refine ⟨rfl, rfl, hreached, ⟨trivial, fun frame hframe => ?_⟩, rfl⟩
    obtain rfl := List.mem_singleton.mp hframe
    exact trivial

theorem step (hnative : setting.NativesMakeNoFunctions) (h : AgreeOn live left right) :
    ∃ reached, AgreeOn reached (left.step setting) (right.step setting.keeping) := by
  have hwhole := h
  obtain ⟨control, frames, state⟩ := left
  obtain ⟨control', frames', state'⟩ := right
  obtain ⟨rfl, rfl, hstate, ⟨hcontrol, hheld⟩, hgrounded⟩ := h
  cases control with
  | eval expr => exact of_widened hnative hwhole (widened_stepEval hstate expr frames)
  | exec stmt => exact of_widened hnative hwhole (widened_stepExec hstate stmt frames)
  | gather gathering =>
    exact of_widened hnative hwhole (widened_stepGather hstate gathering frames)
  | value value =>
    cases frames with
    | nil => exact ⟨live, hwhole⟩
    | cons frame rest =>
      have hframe := hheld frame List.mem_cons_self
      exact of_widened hnative hwhole (widened_stepValue hstate hcontrol hframe rest)
  | done =>
    cases frames with
    | nil => exact ⟨live, hwhole⟩
    | cons frame rest =>
      by_cases hprogram : ∃ stmts, frame = .program stmts
      · obtain ⟨stmts, rfl⟩ := hprogram
        obtain rfl : rest = [] := hgrounded
        exact step_program hwhole rfl rfl
      · have hframe := hheld frame List.mem_cons_self
        exact of_widened hnative hwhole
          (widened_stepDone hstate hframe rest fun stmts he => hprogram ⟨stmts, he⟩)
  | returning value =>
    cases frames with
    | nil => exact ⟨live, hwhole⟩
    | cons frame rest =>
      have hframe := hheld frame List.mem_cons_self
      exact of_widened hnative hwhole (sameBut_stepReturning hstate value hframe rest).widened
  | halting halt =>
    cases frames with
    | nil => exact ⟨live, hwhole⟩
    | cons frame rest =>
      have hframe := hheld frame List.mem_cons_self
      exact of_widened hnative hwhole (sameBut_stepHalting hstate halt hframe rest).widened

theorem after (hnative : setting.NativesMakeNoFunctions) (h : AgreeOn live left right)
    (n : Nat) :
    ∃ reached, AgreeOn reached (left.after setting n) (right.after setting.keeping n) := by
  induction n generalizing live left right with
  | zero => exact ⟨live, h⟩
  | succ n ih =>
    obtain ⟨reached, hstep⟩ := h.step hnative
    exact ih hstep

end AgreeOn

end Machine

end CommandScript
