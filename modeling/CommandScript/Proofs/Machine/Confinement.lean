import CommandScript.Proofs.Machine.Agreement
import CommandScript.Proofs.Machine.Stacking
import CommandScript.Proofs.Scope.Confinement

/-!
# Calls touch only what they can reach

A call starts in a scope of its own inside the closure of the function, and it holds the
function and the arguments. From these and from the global scope it can reach scopes by
links. All that it does, nested calls included, is confined to these and to scopes that it
creates: what it holds keeps no other scope, and no link leads to another one. Every other
scope has the same bindings and the same parent at any time during the call and after it,
however the call ends.

The frame that goes back to the scope of the caller is the one thing that leads out. It is the
outermost frame of the body, and nothing is looked up after it.

* `Interpreter.CallReaches`: what a call can reach.
* `Machine.Confined`, `Machine.Confined.step`: all that is held is confined, and stays so.
* `Machine.Calling`, `Machine.Calling.step`: the course of a call, with the frame that leads
  back to the caller.
* `Machine.call_confined`: the other scopes are unchanged.
-/

namespace CommandScript

open Relation

/-! ## States -/

/-- Looking names up from the current and from the global scope, and all changes since the
earlier store, are confined to a set of scopes. -/
structure Interpreter.Confined (before : Scopes) (inside : ScopeId → Prop)
    (state : Interpreter) : Prop where
  scopes : before.Confined inside state.scopes
  globals : before.Room inside state.globals
  current : before.Room inside state.current

namespace Interpreter.Confined

variable {before : Scopes} {inside : ScopeId → Prop} {state : Interpreter}

theorem room_target? (h : state.Confined before inside) {rule : LookupRule} {id : NodeId}
    {name : String} {found : ScopeId} (hfound : state.target? rule id name = some found) :
    before.Room inside found := by
  unfold target? at hfound
  split at hfound
  · exact h.scopes.room_of_reaches h.current (Scopes.reaches_nearest? hfound)
  · split at hfound
    · exact h.scopes.room_of_reaches h.current
        (Scopes.reaches_ancestor? (Option.filter_eq_some_iff.mp hfound).1)
    · exact h.scopes.room_of_reaches h.globals (Scopes.reaches_nearest? hfound)

theorem within_lookUp? (h : state.Confined before inside) {rule : LookupRule} {id : NodeId}
    {name : String} {value : Value} (hread : state.lookUp? rule id name = some value) :
    value.Within (before.Room inside) := by
  obtain ⟨found, hfound, hvalue⟩ := Option.bind_eq_some_iff.mp hread
  exact h.scopes.within_of_binds (h.room_target? hfound) (Scopes.binds_of_local? hvalue)

theorem withDepth (h : state.Confined before inside) (depth : Nat) :
    Confined before inside { state with callDepth := depth } :=
  ⟨h.scopes, h.globals, h.current⟩

theorem withCurrent (h : state.Confined before inside) {id : ScopeId}
    (hid : before.Room inside id) : Confined before inside { state with current := id } :=
  ⟨h.scopes, h.globals, hid⟩

theorem write (h : state.Confined before inside) (text : String) :
    (state.write text).1.Confined before inside :=
  ⟨h.scopes, h.globals, h.current⟩

theorem carryOut (h : state.Confined before inside) (request : Request) :
    (state.carryOut request).1.Confined before inside :=
  ⟨h.scopes, h.globals, h.current⟩

theorem define (h : state.Confined before inside) {id : ScopeId} (hid : before.Room inside id)
    (name : String) {value : Value} (hvalue : value.Within (before.Room inside)) :
    (state.define id name value).Confined before inside :=
  ⟨h.scopes.define hid name hvalue, h.globals, h.current⟩

theorem bindAll (h : state.Confined before inside) {id : ScopeId} (hid : before.Room inside id)
    (names : List String) {values : List Value}
    (hvalues : ∀ value ∈ values, value.Within (before.Room inside)) :
    (state.bindAll id names values).Confined before inside := by
  induction names generalizing state values with
  | nil => cases values <;> exact h
  | cons name names ih =>
    cases values with
    | nil => exact h
    | cons value values =>
      obtain ⟨hvalue, hrest⟩ := List.forall_mem_cons.mp hvalues
      exact ih (h.define hid name hvalue) hrest

theorem enter (h : state.Confined before inside) {parent : ScopeId}
    (hparent : before.Room inside parent) : (state.enter parent).Confined before inside :=
  ⟨h.scopes.add hparent, h.globals, h.scopes.room_new⟩

theorem declareFunction (h : state.Confined before inside) (decl : FunctionDecl) :
    (state.declareFunction decl).Confined before inside := by
  have htracked : state.trackCurrent.Confined before inside := by
    unfold trackCurrent
    split
    · exact h
    · exact ⟨h.scopes, h.globals, h.current⟩
  have hadvanced : state.trackCurrent.advanceIdentity.Confined before inside :=
    ⟨htracked.scopes, htracked.globals, htracked.current⟩
  refine hadvanced.define h.current decl.name fun closure hclosure => ?_
  exact Option.some.inj hclosure ▸ h.current

end Interpreter.Confined

/-! ## Steps -/

namespace Machine

/-- All that the machine holds and does is confined to a set of scopes. -/
structure Confined (before : Scopes) (inside : ScopeId → Prop) (machine : Machine) : Prop where
  state : machine.state.Confined before inside
  holds : machine.Holds (Value.Within (before.Room inside)) (before.Room inside)

section Steps

variable {setting : Setting} {before : Scopes} {inside : ScopeId → Prop} {state : Interpreter}

theorem confined_enterBody (h : state.Confined before inside) (decl : FunctionDecl)
    {closure : ScopeId} (hclosure : before.Room inside closure) {args : List Value}
    (hargs : ∀ arg ∈ args, arg.Within (before.Room inside)) (frames : List Frame) :
    (enterBody decl closure args frames state).state.Confined before inside :=
  (h.enter hclosure).bindAll h.scopes.room_new decl.params hargs

theorem confined_call (h : state.Confined before inside) {callee : Value}
    (hcallee : callee.Within (before.Room inside)) {args : List Value}
    (hargs : ∀ arg ∈ args, arg.Within (before.Room inside)) (line : Nat) (frames : List Frame) :
    (call setting callee args line frames state).state.Confined before inside := by
  unfold call
  split
  · split
    · exact h
    · split
      · exact h
      · exact confined_enterBody (h.withDepth _) _ (hcallee _ rfl) hargs _
  · split
    · exact h
    · split
      · exact h
      · unfold answer
        split <;> exact h
  · exact h

theorem confined_nextArgument (h : state.Confined before inside) {callee : Value}
    (hcallee : callee.Within (before.Room inside)) {values : List Value}
    (hvalues : ∀ value ∈ values, value.Within (before.Room inside)) (rest : List Expr)
    (line : Nat) (frames : List Frame) :
    (nextArgument setting callee values rest line frames state).state.Confined before inside := by
  unfold nextArgument
  split
  · exact confined_call h hcallee (fun arg harg => hvalues arg (List.mem_reverse.mp harg)) _ _
  · exact h

theorem state_stepEval (expr : Expr) (frames : List Frame) :
    (stepEval setting expr frames state).state = state := by
  unfold stepEval
  split
  case h_6 => split <;> rfl
  all_goals rfl

theorem confined_stepExec (h : state.Confined before inside) (stmt : Stmt)
    (frames : List Frame) : (stepExec stmt frames state).state.Confined before inside := by
  unfold stepExec
  split
  case h_1 => exact h.enter h.current
  case h_9 => exact h.define h.current _ fun _ hnone => nomatch hnone
  case h_10 => exact h.declareFunction _
  case h_12 topic line =>
    have hcarried := h.carryOut (.help topic)
    split <;> rename_i hresult <;> rw [hresult] at hcarried <;> exact hcarried
  all_goals exact h

theorem confined_stepGather (h : state.Confined before inside) (gathering : Gathering)
    (frames : List Frame) : (stepGather gathering frames state).state.Confined before inside := by
  unfold stepGather
  split
  · split <;> exact h
  · split
    case h_1 => exact h.carryOut _
    all_goals exact h

theorem confined_stepValue (h : state.Confined before inside) {value : Value}
    (hvalue : value.Within (before.Room inside)) {frame : Frame}
    (hframe : frame.Holds (Value.Within (before.Room inside)) (before.Room inside))
    (frames : List Frame) :
    (stepValue setting value frame frames state).state.Confined before inside := by
  have hdeliver : ∀ outcome line,
      (deliver outcome line frames state).state.Confined before inside := by
    intro outcome line
    cases outcome <;> exact h
  unfold stepValue
  split
  case h_1 => exact hdeliver _ _
  case h_3 => exact hdeliver _ _
  case h_4 => split <;> exact h
  case h_5 =>
    split
    · exact h.define (h.room_target? ‹_›) _ hvalue
    · exact h
  case h_6 => exact confined_nextArgument h hvalue (fun _ hnil => by cases hnil) _ _ _
  case h_7 =>
    exact confined_nextArgument h hframe.1 (List.forall_mem_cons.mpr ⟨hvalue, hframe.2⟩) _ _ _
  case h_9 =>
    have hwritten := h.write (value.text ++ "\n")
    split <;> rename_i hresult <;> rw [hresult] at hwritten <;> exact hwritten
  case h_10 => exact h.define h.current _ hvalue
  case h_12 =>
    split
    · exact h
    · split <;> exact h
  case h_13 => split <;> exact h
  all_goals exact h

theorem confined_stepDone (h : state.Confined before inside) {frame : Frame}
    (hframe : frame.Holds (Value.Within (before.Room inside)) (before.Room inside))
    (hinner : ∀ rest, frame ≠ .program rest) (frames : List Frame) :
    (stepDone setting frame frames state).state.Confined before inside := by
  unfold stepDone
  split
  case h_3 => exact h.withCurrent hframe
  case h_4 => exact h.withDepth _
  case h_6 => exact absurd rfl (hinner _)
  case h_7 => exact absurd rfl (hinner _)
  all_goals exact h

theorem confined_stepReturning (h : state.Confined before inside) (value : Value)
    {frame : Frame}
    (hframe : frame.Holds (Value.Within (before.Room inside)) (before.Room inside))
    (frames : List Frame) :
    (stepReturning value frame frames state).state.Confined before inside := by
  unfold stepReturning
  split
  case h_1 => exact h.withCurrent hframe
  case h_2 => exact h.withDepth _
  all_goals exact h

theorem confined_stepHalting (h : state.Confined before inside) (halt : Halt) {frame : Frame}
    (hframe : frame.Holds (Value.Within (before.Room inside)) (before.Room inside))
    (frames : List Frame) :
    (stepHalting halt frame frames state).state.Confined before inside := by
  unfold stepHalting
  split
  case h_1 => exact h.withCurrent hframe
  case h_2 => exact h.withDepth _
  all_goals exact h

end Steps

namespace Confined

variable {setting : Setting} {before : Scopes} {inside : ScopeId → Prop} {machine : Machine}

theorem supplies (hnative : setting.NativesMakeNoFunctions)
    (h : machine.Confined before inside) :
    Supplies setting (Value.Within (before.Room inside)) (before.Room inside) machine.state where
  plain value hplain closure hclosure := by
    rw [hplain] at hclosure
    cases hclosure
  read _ _ _ hread := h.state.within_lookUp? hread
  native native args line value hargs hanswer closure hclosure := by
    rcases hnative native args line value hanswer with hplain | harg
    · rw [hplain] at hclosure
      cases hclosure
    · exact hargs value harg closure hclosure
  current := h.state.current

/-- Unless it comes to the end of a statement of a program, a step stays confined. -/
theorem step (hnative : setting.NativesMakeNoFunctions) (h : machine.Confined before inside)
    (hinner : ∀ rest frames, machine.frames ≠ .program rest :: frames) :
    (machine.step setting).Confined before inside := by
  refine ⟨?_, h.holds.step (h.supplies hnative)⟩
  obtain ⟨control, frames, state⟩ := machine
  obtain ⟨hstate, hcontrol, hframes⟩ := h
  cases control with
  | eval expr =>
    rw [Machine.step, state_stepEval]
    exact hstate
  | exec stmt => exact confined_stepExec hstate stmt frames
  | gather gathering => exact confined_stepGather hstate gathering frames
  | value value =>
    cases frames with
    | nil => exact hstate
    | cons frame rest =>
      exact confined_stepValue hstate hcontrol (hframes frame List.mem_cons_self) rest
  | done =>
    cases frames with
    | nil => exact hstate
    | cons frame rest =>
      exact confined_stepDone hstate (hframes frame List.mem_cons_self)
        (fun stmts he => hinner stmts rest (congrArg (· :: rest) he)) rest
  | returning value =>
    cases frames with
    | nil => exact hstate
    | cons frame rest =>
      exact confined_stepReturning hstate value (hframes frame List.mem_cons_self) rest
  | halting halt =>
    cases frames with
    | nil => exact hstate
    | cons frame rest =>
      exact confined_stepHalting hstate halt (hframes frame List.mem_cons_self) rest

end Confined

/-! ## Calls -/

/-- The course of a call. Either its body is under way, above the frame that goes back to the
scope of the caller, or the body has been left and the next step ends the call. -/
inductive Calling (setting : Setting) (before : Scopes) (inside : ScopeId → Prop)
    (outer : ScopeId) (closing : Frame) : Machine → Prop where
  | under (body : Machine) (rest : List Stmt) : body.Confined before inside →
      Calling setting before inside outer closing (body.onto [.block rest outer, closing])
  | left {machine : Machine} : before.Confined inside machine.state.scopes →
      (machine.step setting).state.scopes = machine.state.scopes →
      (machine.step setting).atRest = true →
      Calling setting before inside outer closing machine

namespace Calling

variable {setting : Setting} {before : Scopes} {inside : ScopeId → Prop} {outer : ScopeId}
  {closing : Frame} {machine : Machine}

theorem scopes (h : Calling setting before inside outer closing machine) :
    before.Confined inside machine.state.scopes := by
  cases h with
  | under body rest hbody => exact hbody.state.scopes
  | left hscopes _ _ => exact hscopes

theorem of_atRest (hscopes : before.Confined inside machine.state.scopes)
    (hrest : machine.atRest = true) : Calling setting before inside outer closing machine := by
  have hsame : machine.step setting = machine := step_of_atRest hrest
  exact .left hscopes (by rw [hsame]) (by rw [hsame]; exact hrest)

/-- The call is left through its last frame, with something to hand on. -/
theorem of_closing (hclosing : closing = .call ∨ closing = .hostCall) {control : Control}
    (hcontrol : control = .done ∨ (∃ value, control = .returning value) ∨
      ∃ halt, control = .halting halt)
    {state : Interpreter} (hscopes : before.Confined inside state.scopes) :
    Calling setting before inside outer closing ⟨control, [closing], state⟩ := by
  rcases hclosing with rfl | rfl <;> rcases hcontrol with rfl | ⟨_, rfl⟩ | ⟨_, rfl⟩ <;>
    exact .left hscopes rfl rfl

theorem step (hnative : setting.NativesMakeNoFunctions)
    (hclosing : closing = .call ∨ closing = .hostCall) (hgrounded : Grounded machine.frames)
    (h : Calling setting before inside outer closing machine) :
    Calling setting before inside outer closing (machine.step setting) := by
  cases h with
  | left hscopes hsame hrest => exact of_atRest (hsame ▸ hscopes) hrest
  | under body rest hbody =>
    cases hrest : body.atRest with
    | false =>
      rw [step_onto _ hrest]
      refine .under _ rest (hbody.step hnative fun stmts frames hframes => ?_)
      -- the frame of a program would have no frame below
      rw [onto, hframes] at hgrounded
      have hbelow : frames ++ [.block rest outer, closing] = [] := hgrounded
      cases frames <;> cases hbelow
    | true =>
      obtain ⟨control, frames, state⟩ := body
      obtain ⟨hstate, hcontrol, -⟩ := hbody
      have hnone : ∀ frame ∈ ([] : List Frame),
          frame.Holds (Value.Within (before.Room inside)) (before.Room inside) :=
        fun _ hnil => by cases hnil
      cases frames with
      | cons frame frames => cases control <;> cases hrest
      | nil =>
        cases control with
        | value value => exact .under ⟨.done, [], state⟩ rest ⟨hstate, trivial, hnone⟩
        | done =>
          cases rest with
          | nil => exact of_closing hclosing (.inl rfl) hstate.scopes
          | cons stmt rest =>
            exact .under ⟨.exec stmt, [], state⟩ rest ⟨hstate, trivial, hnone⟩
        | returning value => exact of_closing hclosing (.inr (.inl ⟨value, rfl⟩)) hstate.scopes
        | halting halt => exact of_closing hclosing (.inr (.inr ⟨halt, rfl⟩)) hstate.scopes
        | _ => cases hrest

theorem after (hnative : setting.NativesMakeNoFunctions)
    (hclosing : closing = .call ∨ closing = .hostCall) (hgrounded : Grounded machine.frames)
    (h : Calling setting before inside outer closing machine) (n : Nat) :
    Calling setting before inside outer closing (machine.after setting n) := by
  induction n generalizing machine with
  | zero => exact h
  | succ n ih => exact ih hgrounded.step (h.step hnative hclosing hgrounded)

end Calling

end Machine

/-! ## What a call can reach -/

/-- From the global scope, or from what the function or an argument keeps, links lead to the
scope. -/
def Interpreter.CallReaches (state : Interpreter) (callee : Value) (args : List Value)
    (id : ScopeId) : Prop :=
  ∃ root, (root = state.globals ∨ ∃ value ∈ callee :: args, value.closure? = some root) ∧
    ReflTransGen state.scopes.Links root id

namespace Machine

variable {setting : Setting} (state : Interpreter) (decl : FunctionDecl) (closure : ScopeId)
  (args : List Value)

/-- The body of a call starts within what the call can reach. -/
theorem calling_enterBody {inside : ScopeId → Prop}
    (hclosed : ∀ id, inside id → ∀ linked, state.scopes.Links id linked → inside linked)
    (hglobals : inside state.globals) (hclosure : inside closure)
    (hargs : ∀ arg ∈ args, arg.Within inside) (closing : Frame) :
    Calling setting state.scopes inside state.current closing
      (enterBody decl closure args [closing] state) := by
  have hentered : (state.enter closure).Confined state.scopes inside :=
    ⟨(Scopes.Confined.start hclosed).add (.inl hclosure), .inl hglobals,
      (Scopes.Confined.start hclosed).room_new⟩
  have hbound := hentered.bindAll hentered.current decl.params fun arg harg id hid =>
    .inl (hargs arg harg id hid)
  exact .under ⟨.done, [], _⟩ decl.body ⟨hbound, trivial, fun _ hnil => by cases hnil⟩

variable (setting) (identity : Nat)

/-- The host's call and the call in a program are confined to what the call can reach. -/
theorem calling_reaches (line : Nat) :
    let callee := Value.function decl closure identity
    let inside := state.CallReaches callee args
    Calling setting state.scopes inside state.current .hostCall
        (state.startCall setting callee args line) ∧
      Calling setting state.scopes inside state.current .call
        (call setting callee args line [] state) := by
  intro callee inside
  have hclosed : ∀ id, inside id → ∀ linked, state.scopes.Links id linked → inside linked :=
    fun id ⟨root, hroot, hway⟩ linked hlink => ⟨root, hroot, hway.tail hlink⟩
  have hglobals : inside state.globals := ⟨_, .inl rfl, .refl⟩
  have hheld : ∀ value ∈ callee :: args, value.Within inside :=
    fun value hvalue root hroot => ⟨root, .inr ⟨value, hvalue, hroot⟩, .refl⟩
  obtain ⟨hcallee, hargs⟩ := List.forall_mem_cons.mp hheld
  refine ⟨calling_enterBody state decl closure args hclosed hglobals (hcallee _ rfl) hargs .hostCall, ?_⟩
  show Calling _ _ _ _ _ (call setting (.function decl closure identity) args line [] state)
  unfold call
  dsimp only
  split
  · exact .of_atRest (.start hclosed) rfl
  · split
    · exact .of_atRest (.start hclosed) rfl
    · exact calling_enterBody { state with callDepth := state.callDepth + 1 } decl closure args
        hclosed hglobals (hcallee _ rfl) hargs .call

variable {setting}

/-- **Calls touch only what they can reach.** A scope that existed before a call of a
function, and that the call can reach neither from the global scope nor from what the
function and the arguments keep, has the same bindings and the same parent afterwards. This
holds of calls by the host, whichever way they end. It holds of calls in a program, too, from
their start to their end, which is when the call on its own would come to rest. -/
theorem call_confined (hnative : setting.NativesMakeNoFunctions) {id : ScopeId}
    (hold : id < state.scopes.nextId)
    (hunreached : ¬ state.CallReaches (.function decl closure identity) args id) (line : Nat) :
    (∀ budget outcome final,
      state.callValue setting budget (.function decl closure identity) args line =
          some (outcome, final) →
        final.scopes.find id = state.scopes.find id) ∧
    ∀ frames n,
      (∀ k < n, ((call setting (.function decl closure identity) args line [] state).after
        setting k).atRest = false) →
      ((call setting (.function decl closure identity) args line frames state).after
        setting n).state.scopes.find id = state.scopes.find id := by
  obtain ⟨hhost, hcall⟩ := calling_reaches setting state decl closure args identity line
  have hroom : ¬ state.scopes.Room
      (state.CallReaches (.function decl closure identity) args) id :=
    not_or.mpr ⟨hunreached, Nat.not_le.mpr hold⟩
  constructor
  · intro budget outcome final hfinal
    obtain ⟨machine, hmachine, hsame⟩ := Option.map_eq_some_iff.mp hfinal
    obtain ⟨rfl, -⟩ := run_eq_some_iff.mp hmachine
    have hstate : final = (Machine.after setting budget
        (state.startCall setting (.function decl closure identity) args line)).state := by
      split at hsame <;> exact (congrArg Prod.snd hsame).symm
    rw [hstate]
    have hgrounded : Grounded
        (state.startCall setting (.function decl closure identity) args line).frames := trivial
    exact (hhost.after hnative (.inr rfl) hgrounded budget).scopes.kept id hroom
  · intro frames n hbefore
    have hgrounded : Grounded
        (call setting (.function decl closure identity) args line [] state).frames :=
      Grounded.of_call (show Grounded [] from trivial) _ args line
    have honto : call setting (.function decl closure identity) args line frames state =
        (call setting (.function decl closure identity) args line [] state).onto frames :=
      onto_call frames [] state _ args line
    rw [honto, after_onto frames hbefore]
    exact (hcall.after hnative (.inl rfl) hgrounded n).scopes.kept id hroom

/-- A function of the global scope, called from within a block that binds `x`, assigns to `x`. -/
theorem call_confined_of_block :
    let setting : Setting := ⟨.byName, some 1, fun _ _ _ => .ok .null⟩
    let start := Interpreter.initial setting Registry.empty .unlimited
    let state := ((start.define 0 "x" .null).enter 0).define 1 "x" .null
    let decl : FunctionDecl :=
      ⟨"f", ["y"], [.expression (.assign 0 "x" (.variable 1 "y" 1) 1) 1]⟩
    let args : List Value := [.bool true]
    setting.NativesMakeNoFunctions ∧ 1 < state.scopes.nextId ∧
      ¬ state.CallReaches (.function decl 0 7) args 1 ∧
      (∀ budget outcome final,
        state.callValue setting budget (.function decl 0 7) args 1 = some (outcome, final) →
          final.scopes.find 1 = state.scopes.find 1) ∧
      ∀ frames n,
        (∀ k < n, ((call setting (.function decl 0 7) args 1 [] state).after
          setting k).atRest = false) →
        ((call setting (.function decl 0 7) args 1 frames state).after setting n).state.scopes.find
          1 = state.scopes.find 1 := by
  intro setting start state decl args
  have hnative : setting.NativesMakeNoFunctions := by
    intro native args line value h
    cases h
    exact .inl rfl
  have hold : 1 < state.scopes.nextId := by decide
  have hglobal : ∀ id, id = 0 → ∀ linked, state.scopes.Links id linked → linked = 0 := by
    rintro id rfl linked hlink
    have hnone : state.scopes.links 0 = [] := rfl
    rw [Scopes.Links, hnone] at hlink
    cases hlink
  have hunreached : ¬ state.CallReaches (.function decl 0 7) args 1 := by
    rintro ⟨root, hroot, hway⟩
    have hzero : root = 0 := by
      rcases hroot with rfl | ⟨value, hvalue, hclosure⟩
      · rfl
      · rcases List.mem_cons.mp hvalue with rfl | hvalue
        · exact (Option.some.inj hclosure).symm
        · obtain rfl := List.mem_singleton.mp hvalue
          cases hclosure
    cases Scopes.closed_reachable hglobal hzero hway
  exact ⟨hnative, hold, hunreached, call_confined state decl 0 args 7 hnative hold hunreached 1⟩

end Machine

end CommandScript
