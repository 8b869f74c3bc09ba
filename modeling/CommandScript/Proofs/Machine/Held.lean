import CommandScript.Machine.Run

/-!
# Values held by a machine

Besides its store, a machine holds values in its control and in its frames, and the
frames of entered blocks hold the scopes to go back to. A step holds no value out of
nowhere: what it holds was held before, was read by name, came from a native or is
plain, that is, no function made from a declaration. So a property of values and a
property of scopes that hold of everything held go on to do so.

* `Machine.Holds`: everything held has the given properties.
* `Machine.Holds.step`: a step preserves this, provided that reads and natives do.
-/

namespace CommandScript

def CommandMap.Holds (P : Value → Prop) (map : CommandMap) : Prop :=
  ∀ entry ∈ map.entries, ∀ value ∈ entry.2, P value

def Gathering.Holds (P : Value → Prop) (gathering : Gathering) : Prop :=
  gathering.map.Holds P ∧
    ∀ parameter, gathering.parameter = some parameter → ∀ value ∈ parameter.values, P value

def Control.Holds (P : Value → Prop) : Control → Prop
  | .gather gathering => gathering.Holds P
  | .value held => P held
  | .returning held => P held
  | _ => True

def Frame.Holds (P : Value → Prop) (Q : ScopeId → Prop) : Frame → Prop
  | .right _ held _ => P held
  | .argument called before _ _ => P called ∧ ∀ value ∈ before, P value
  | .gather gathering => gathering.Holds P
  | .block _ outer => Q outer
  | _ => True

structure Machine.Holds (P : Value → Prop) (Q : ScopeId → Prop) (machine : Machine) : Prop where
  control : machine.control.Holds P
  frames : ∀ frame ∈ machine.frames, frame.Holds P Q

/-! ## Plain values -/

theorem UnaryOp.closure?_apply {op : UnaryOp} {operand value : Value}
    (h : op.apply operand = .ok value) : value.closure? = none := by
  unfold UnaryOp.apply at h
  split at h <;> cases h <;> rfl

theorem BinaryOp.closure?_apply {op : BinaryOp} {left right value : Value}
    (h : op.apply left right = .ok value) : value.closure? = none := by
  unfold BinaryOp.apply at h
  split at h
  · cases h; rfl
  · cases h; rfl
  · unfold BinaryOp.sum at h
    split at h <;> cases h <;> rfl
  · split at h
    · cases h
      unfold BinaryOp.onNumbers
      split <;> rfl
    · cases h

theorem Value.closure?_ofLiteral (literal : Literal) :
    (Value.ofLiteral literal).closure? = none := by
  cases literal <;> rfl

/-! ## Command maps -/

theorem CommandMap.holds_append {P : Value → Prop} {map : CommandMap} (h : map.Holds P)
    (key : String) {values : List Value} (hv : ∀ value ∈ values, P value) :
    (map.append key values).Holds P := by
  obtain ⟨entries⟩ := map
  intro entry hentry
  simp only [CommandMap.append] at hentry
  induction entries with
  | nil =>
    obtain rfl := List.mem_singleton.mp hentry
    exact hv
  | cons first rest ih =>
    obtain ⟨other, held⟩ := first
    have hfirst : ∀ value ∈ held, P value := h (other, held) List.mem_cons_self
    have hrest : CommandMap.Holds P ⟨rest⟩ := fun e he => h e (List.mem_cons_of_mem _ he)
    unfold appendEntry at hentry
    split at hentry
    · rcases List.mem_cons.mp hentry with rfl | hentry
      · intro value hvalue
        exact (List.mem_append.mp hvalue).elim (hfirst value) (hv value)
      · exact hrest entry hentry
    · rcases List.mem_cons.mp hentry with rfl | hentry
      · exact hfirst
      · exact ih hrest hentry

theorem CommandMap.holds_empty (P : Value → Prop) : CommandMap.empty.Holds P := by
  intro entry hentry value hvalue
  simp only [CommandMap.empty, List.mem_cons, List.not_mem_nil, or_false] at hentry
  rcases hentry with rfl | rfl <;> cases hvalue

theorem Gathering.Holds.receive {P : Value → Prop} {gathering : Gathering}
    (h : gathering.Holds P) {value : Value} (hv : P value) :
    (Machine.Gathering.receive gathering value).Holds P := by
  unfold Machine.Gathering.receive
  split
  · rename_i parameter hp
    refine ⟨h.1, fun changed hc => ?_⟩
    obtain rfl := Option.some.inj hc
    intro held hheld
    rcases List.mem_append.mp hheld with hheld | hheld
    · exact h.2 parameter hp held hheld
    · exact List.mem_singleton.mp hheld ▸ hv
  · rename_i hp
    refine ⟨CommandMap.holds_append h.1 _ ?_, fun parameter hc => ?_⟩
    · intro held hheld
      exact List.mem_singleton.mp hheld ▸ hv
    · rw [hp] at hc
      cases hc

/-! ## Steps -/

namespace Machine

theorem Holds.mono {P P' : Value → Prop} {Q Q' : ScopeId → Prop} {machine : Machine}
    (h : machine.Holds P Q) (hP : ∀ value, P value → P' value) (hQ : ∀ id, Q id → Q' id) :
    machine.Holds P' Q' := by
  have hgathering : ∀ gathering : Gathering, gathering.Holds P → gathering.Holds P' :=
    fun gathering hg => ⟨fun entry he value hv => hP value (hg.1 entry he value hv),
      fun parameter hp value hv => hP value (hg.2 parameter hp value hv)⟩
  constructor
  · have hcontrol := h.control
    revert hcontrol
    cases machine.control with
    | gather gathering => exact hgathering gathering
    | value held => exact hP held
    | returning held => exact hP held
    | _ => exact fun _ => trivial
  · intro frame hframe
    have hheld := h.frames frame hframe
    revert hheld
    cases frame with
    | right op held line => exact hP held
    | argument called before rest line =>
      exact fun ⟨hcalled, hbefore⟩ => ⟨hP called hcalled, fun v hv => hP v (hbefore v hv)⟩
    | gather gathering => exact hgathering gathering
    | block rest outer => exact hQ outer
    | _ => exact fun _ => trivial

/-- What a property of values and one of scopes have to fulfil for steps from a state to
preserve them. -/
structure Supplies (setting : Setting) (P : Value → Prop) (Q : ScopeId → Prop)
    (state : Interpreter) : Prop where
  plain : ∀ value : Value, value.closure? = none → P value
  read : ∀ id name value, state.lookUp? setting.lookup id name = some value → P value
  native : ∀ native args line value, (∀ arg ∈ args, P arg) →
    setting.native native args line = .ok value → P value
  current : Q state.current

namespace Holds

variable {setting : Setting} {P : Value → Prop} {Q : ScopeId → Prop} {state : Interpreter}
  {frames : List Frame}

theorem of_raise (hf : ∀ frame ∈ frames, frame.Holds P Q) (fault : RuntimeFault) (line : Nat)
    (state : Interpreter) : (raise fault line frames state).Holds P Q :=
  ⟨trivial, hf⟩

theorem of_deliver (hf : ∀ frame ∈ frames, frame.Holds P Q)
    {outcome : Except RuntimeFault Value} (ho : ∀ value, outcome = .ok value → P value)
    (line : Nat) (state : Interpreter) : (deliver outcome line frames state).Holds P Q := by
  unfold deliver
  split
  · exact ⟨ho _ rfl, hf⟩
  · exact of_raise hf _ _ _

theorem push {control : Control} {frame : Frame} {machine : Interpreter}
    (hc : control.Holds P) (hframe : frame.Holds P Q)
    (hf : ∀ frame ∈ frames, frame.Holds P Q) :
    Machine.Holds P Q ⟨control, frame :: frames, machine⟩ :=
  ⟨hc, List.forall_mem_cons.mpr ⟨hframe, hf⟩⟩

theorem of_call (h : Supplies setting P Q state) (hf : ∀ frame ∈ frames, frame.Holds P Q)
    (callee : Value) {args : List Value} (hargs : ∀ arg ∈ args, P arg) (line : Nat) :
    (call setting callee args line frames state).Holds P Q := by
  unfold call
  split
  · split
    · exact of_raise hf _ _ _
    · split
      · exact of_raise hf _ _ _
      · exact push trivial h.current (List.forall_mem_cons.mpr ⟨trivial, hf⟩)
  · split
    · exact of_raise hf _ _ _
    · split
      · exact of_raise hf _ _ _
      · unfold answer
        split
        · exact ⟨h.native _ _ _ _ hargs ‹_›, hf⟩
        · exact ⟨trivial, hf⟩
  · exact of_raise hf _ _ _

theorem of_nextArgument (h : Supplies setting P Q state)
    (hf : ∀ frame ∈ frames, frame.Holds P Q) {callee : Value} (hcallee : P callee)
    {before : List Value} (hbefore : ∀ value ∈ before, P value) (rest : List Expr)
    (line : Nat) : (nextArgument setting callee before rest line frames state).Holds P Q := by
  unfold nextArgument
  split
  · exact of_call h hf callee (fun arg harg => hbefore arg (List.mem_reverse.mp harg)) line
  · exact push trivial ⟨hcallee, hbefore⟩ hf

theorem of_stepEval (h : Supplies setting P Q state)
    (hf : ∀ frame ∈ frames, frame.Holds P Q) (expr : Expr) :
    (stepEval setting expr frames state).Holds P Q := by
  unfold stepEval
  split
  · exact ⟨h.plain _ (Value.closure?_ofLiteral _), hf⟩
  · exact ⟨trivial, hf⟩
  · exact push trivial trivial hf
  · exact push trivial trivial hf
  · exact push trivial trivial hf
  · split
    · rename_i value hread
      exact ⟨h.read _ _ value hread, hf⟩
    · exact of_raise hf _ _ _
  · exact push trivial trivial hf
  · exact push trivial trivial hf
  · exact ⟨h.plain _ rfl, hf⟩

theorem of_stepExec (h : Supplies setting P Q state)
    (hf : ∀ frame ∈ frames, frame.Holds P Q) (stmt : Stmt) :
    (stepExec stmt frames state).Holds P Q := by
  unfold stepExec
  split
  · exact push trivial h.current hf
  · exact push trivial trivial hf
  · exact push trivial trivial hf
  · exact push trivial trivial hf
  · exact push trivial trivial hf
  · exact push trivial trivial hf
  · exact ⟨h.plain _ rfl, hf⟩
  · exact push trivial trivial hf
  · exact ⟨trivial, hf⟩
  · exact ⟨trivial, hf⟩
  · exact ⟨⟨CommandMap.holds_empty P, fun _ hnone => by cases hnone⟩, hf⟩
  · split
    · exact ⟨trivial, hf⟩
    · exact of_raise hf _ _ _
  · exact ⟨trivial, hf⟩

theorem of_stepGather (h : Supplies setting P Q state)
    (hf : ∀ frame ∈ frames, frame.Holds P Q) {gathering : Gathering}
    (hg : gathering.Holds P) : (stepGather gathering frames state).Holds P Q := by
  obtain ⟨hmap, hparameter⟩ := hg
  have hword : ∀ text, ∀ value ∈ [Value.string text], P value := by
    intro text value hvalue
    exact List.mem_singleton.mp hvalue ▸ h.plain _ rfl
  unfold stepGather
  split
  · rename_i parameter rest
    have hvalues := hparameter parameter rfl
    split
    · exact ⟨⟨CommandMap.holds_append hmap _ hvalues, fun _ hnone => by cases hnone⟩, hf⟩
    · refine ⟨⟨hmap, fun changed hchanged => ?_⟩, hf⟩
      obtain rfl := Option.some.inj hchanged
      exact List.forall_mem_append.mpr ⟨hvalues, hword _⟩
    · refine push trivial ⟨hmap, fun changed hchanged => ?_⟩ hf
      obtain rfl := Option.some.inj hchanged
      exact hvalues
  · split
    · exact ⟨trivial, hf⟩
    · exact ⟨⟨CommandMap.holds_append hmap _ (hword _), fun _ hnone => by cases hnone⟩, hf⟩
    · exact ⟨⟨CommandMap.holds_append hmap _ (hword _), fun _ hnone => by cases hnone⟩, hf⟩
    · exact push trivial ⟨hmap, fun _ hnone => by cases hnone⟩ hf
    · refine ⟨⟨hmap, fun changed hchanged => ?_⟩, hf⟩
      obtain rfl := Option.some.inj hchanged
      exact fun value hvalue => by cases hvalue

theorem of_stepValue (h : Supplies setting P Q state)
    (hf : ∀ frame ∈ frames, frame.Holds P Q) {frame : Frame} (hframe : frame.Holds P Q)
    {value : Value} (hv : P value) : (stepValue setting value frame frames state).Holds P Q := by
  unfold stepValue
  split
  · exact of_deliver hf (fun v hok => h.plain v (UnaryOp.closure?_apply hok)) _ _
  · exact push trivial hv hf
  · exact of_deliver hf (fun v hok => h.plain v (BinaryOp.closure?_apply hok)) _ _
  · split
    · exact ⟨hv, hf⟩
    · exact ⟨trivial, hf⟩
  · split
    · exact ⟨hv, hf⟩
    · exact of_raise hf _ _ _
  · exact of_nextArgument h hf hv (fun _ hnil => by cases hnil) _ _
  · exact of_nextArgument h hf hframe.1 (List.forall_mem_cons.mpr ⟨hv, hframe.2⟩) _ _
  · exact ⟨trivial, hf⟩
  · split
    · exact ⟨trivial, hf⟩
    · exact of_raise hf _ _ _
  · exact ⟨trivial, hf⟩
  · exact ⟨hv, hf⟩
  · split
    · exact ⟨trivial, hf⟩
    · split <;> exact ⟨trivial, hf⟩
  · split
    · exact push trivial trivial hf
    · exact ⟨trivial, hf⟩
  · exact ⟨Gathering.Holds.receive hframe hv, hf⟩
  · exact push trivial hframe hf

theorem of_stepDone (h : Supplies setting P Q state)
    (hf : ∀ frame ∈ frames, frame.Holds P Q) {frame : Frame} (hframe : frame.Holds P Q) :
    (stepDone setting frame frames state).Holds P Q := by
  unfold stepDone
  split
  · exact push trivial trivial hf
  · exact push trivial hframe hf
  · exact ⟨trivial, hf⟩
  · exact ⟨h.plain _ rfl, hf⟩
  · exact ⟨h.plain _ rfl, hf⟩
  · exact ⟨trivial, hf⟩
  · exact push trivial trivial hf
  · exact ⟨trivial, hf⟩

theorem of_stepReturning (hf : ∀ frame ∈ frames, frame.Holds P Q) (frame : Frame)
    {value : Value} (hv : P value) : (stepReturning value frame frames state).Holds P Q := by
  unfold stepReturning
  split
  · exact ⟨hv, hf⟩
  · exact ⟨hv, hf⟩
  · exact ⟨hv, hf⟩
  · exact push trivial trivial hf
  · exact ⟨hv, hf⟩

theorem of_stepHalting (hf : ∀ frame ∈ frames, frame.Holds P Q) (frame : Frame) (halt : Halt) :
    (stepHalting halt frame frames state).Holds P Q := by
  unfold stepHalting
  split <;> exact ⟨trivial, hf⟩

theorem step {machine : Machine} (hm : machine.Holds P Q)
    (h : Supplies setting P Q machine.state) : (machine.step setting).Holds P Q := by
  obtain ⟨control, frames, state⟩ := machine
  obtain ⟨hc, hf⟩ := hm
  cases control with
  | eval expr => exact of_stepEval h hf expr
  | exec stmt => exact of_stepExec h hf stmt
  | gather gathering => exact of_stepGather h hf hc
  | value value =>
    cases frames with
    | nil => exact ⟨hc, hf⟩
    | cons frame rest =>
      obtain ⟨hframe, hrest⟩ := List.forall_mem_cons.mp hf
      exact of_stepValue h hrest hframe hc
  | done =>
    cases frames with
    | nil => exact ⟨hc, hf⟩
    | cons frame rest =>
      obtain ⟨hframe, hrest⟩ := List.forall_mem_cons.mp hf
      exact of_stepDone h hrest hframe
  | returning value =>
    cases frames with
    | nil => exact ⟨hc, hf⟩
    | cons frame rest => exact of_stepReturning (List.forall_mem_cons.mp hf).2 frame hc
  | halting halt =>
    cases frames with
    | nil => exact ⟨hc, hf⟩
    | cons frame rest => exact of_stepHalting (List.forall_mem_cons.mp hf).2 frame halt

end Holds

end Machine

end CommandScript
