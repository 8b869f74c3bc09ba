import CommandScript.Proofs.Machine.Constant
import CommandScript.Proofs.Machine.Grounded
import CommandScript.Proofs.Resolution.Scoping

/-!
# Returned values and calls

A `return` that no function encloses is a fault of scoping. So whatever may return, in a
program without such faults, is part of a function's body, and a machine carries it out above
the frame of a call only. A returned value leaves blocks, branches and loops step by step
until it meets that frame, and it never meets the frame of the program.

* `Stmt.MayReturn`: a `return` belongs to the statement itself.
* `Machine.GoesOn`, `Machine.Entered`, `Machine.moves_step`: what a step does to the frames.
* `Machine.Contained`: whatever may return has the frame of a call below it.
* `Machine.StartsCall`, `Machine.exists_startsCall`: where a call in progress has started.
* `Machine.ReturnsTo`: the way of a returned value to the call.
* `Machine.returns_end_calls`: no program loses a returned value.
-/

namespace CommandScript

open ScopeItem (Within)

/-! ## Statements that may return -/

/-- A `return` belongs to the statement and to no function within it. -/
def Stmt.MayReturn (stmt : Stmt) : Prop := Within stmt.outline false .leave

/-- A `return` belongs to the statements and to no function within them. -/
def Stmt.MayReturnAll (body : List Stmt) : Prop := Within (Stmt.outlineAll body) false .leave

namespace Stmt

variable {stmt other : Stmt} {body : List Stmt} {condition : Expr} {line : Nat}

theorem MayReturnAll.block (h : MayReturnAll body) : (Stmt.block body).MayReturn :=
  ScopeItem.within_scope.mpr (.inr ⟨false, h, rfl⟩)

theorem MayReturn.branch (h : stmt.MayReturn) (other : Option Stmt) :
    (Stmt.branch condition stmt other line).MayReturn := by
  cases other with
  | none => exact ScopeItem.within_append.mpr (.inr h)
  | some other =>
    exact ScopeItem.within_append.mpr (.inr (ScopeItem.within_append.mpr (.inl h)))

theorem MayReturn.otherwise (h : other.MayReturn) :
    (Stmt.branch condition stmt (some other) line).MayReturn :=
  ScopeItem.within_append.mpr (.inr (ScopeItem.within_append.mpr (.inr h)))

theorem MayReturn.loop (h : stmt.MayReturn) : (Stmt.loop condition stmt line).MayReturn :=
  ScopeItem.within_append.mpr (.inr h)

theorem mayReturn_return (value : Option Expr) : (Stmt.return value line).MayReturn :=
  .here List.mem_cons_self

theorem MayReturn.head (h : stmt.MayReturn) : MayReturnAll (stmt :: body) :=
  ScopeItem.within_append.mpr (.inl h)

theorem MayReturnAll.tail (h : MayReturnAll body) : MayReturnAll (stmt :: body) :=
  ScopeItem.within_append.mpr (.inr h)

theorem MayReturn.of_mem (h : stmt.MayReturn) (hmem : stmt ∈ body) : MayReturnAll body := by
  induction body with
  | nil => cases hmem
  | cons first rest ih =>
    rcases List.mem_cons.mp hmem with rfl | hrest
    · exact h.head
    · exact (ih hrest).tail

end Stmt

/-- Resolution accepts no program that may return. -/
theorem not_mayReturnAll_of_resolve {program : List Stmt} {distances : List (NodeId × Nat)}
    (haccepted : resolve program = .ok distances) : ¬Stmt.MayReturnAll program :=
  fun h =>
  Bool.false_ne_true ((resolve_eq_ok_iff_wellScoped.mp haccepted).1.returns h)

def Control.MayReturn : Control → Prop
  | .exec stmt => stmt.MayReturn
  | .returning _ => True
  | _ => False

/-- What the frame goes on with may return. -/
def Frame.MayReturn : Frame → Prop
  | .giveBack => True
  | .branch thenBranch elseBranch =>
    thenBranch.MayReturn ∨ ∃ stmt ∈ elseBranch, stmt.MayReturn
  | .loopTest _ body | .loopBody _ body => body.MayReturn
  | .block rest _ | .program rest => Stmt.MayReturnAll rest
  | _ => False

namespace Machine

/-! ## What a step does to the frames -/

/-- Something may return here, and not beneath a call. -/
def Allows (control : Control) (frames : List Frame) : Prop :=
  .call ∉ frames ∧ (control.MayReturn ∨ ∃ frame ∈ frames, frame.MayReturn)

/-- A step takes some frames off those below and puts others on, which belong to no call. What
may return afterwards comes from something that was allowed to return before. -/
def GoesOn (control : Control) (taken below : List Frame) (next : Machine) : Prop :=
  ∃ put, next.frames = put ++ below ∧ (∀ frame ∈ put, frame ≠ .call ∧ frame ≠ .hostCall) ∧
    ((next.control.MayReturn ∨ ∃ frame ∈ put, frame.MayReturn) → Allows control taken)

/-- The body of a function is entered, with the frame of the call on the given frames. -/
def Entered (frames : List Frame) (state : Interpreter) (next : Machine) : Prop :=
  ∃ decl closure args, next =
    enterBody decl closure args (.call :: frames) { state with callDepth := state.callDepth + 1 }

/-- A step from the given frames: it goes on, or it enters a body below the innermost one. -/
def Moves (control : Control) (frames : List Frame) (state : Interpreter) (next : Machine) :
    Prop :=
  (∃ taken below, frames = taken ++ below ∧ GoesOn control taken below next) ∨
    Entered frames.tail state next

section Steps

variable {setting : Setting} {control : Control} {frame : Frame} {taken frames : List Frame}
  {state : Interpreter} {next : Machine}

theorem allows_control (h : control.MayReturn) : Allows control [] := ⟨List.not_mem_nil, .inl h⟩

theorem allows_frame (hcall : frame ≠ .call) (h : frame.MayReturn) : Allows control [frame] :=
  ⟨fun hmem => hcall (List.mem_singleton.mp hmem).symm, .inr ⟨frame, List.mem_singleton_self _, h⟩⟩

theorem GoesOn.keep (hframes : next.frames = frames)
    (hcontrol : next.control.MayReturn → Allows control taken) :
    GoesOn control taken frames next := by
  refine ⟨[], hframes, nofun, ?_⟩
  rintro (h | ⟨_, hnil, -⟩)
  · exact hcontrol h
  · cases hnil

theorem GoesOn.put {first : Frame} (hframes : next.frames = first :: frames)
    (hcalls : first ≠ .call ∧ first ≠ .hostCall)
    (hcontrol : next.control.MayReturn → Allows control taken)
    (hfirst : first.MayReturn → Allows control taken) : GoesOn control taken frames next := by
  refine ⟨[first], hframes, ?_, ?_⟩
  · intro frame hframe
    rwa [List.mem_singleton.mp hframe]
  · rintro (h | ⟨frame, hframe, h⟩)
    · exact hcontrol h
    · rw [List.mem_singleton.mp hframe] at h
      exact hfirst h

theorem GoesOn.moves (h : GoesOn control [] frames next) : Moves control frames state next :=
  .inl ⟨[], frames, rfl, h⟩

theorem GoesOn.moves_cons (h : GoesOn control [frame] frames next) :
    Moves control (frame :: frames) state next :=
  .inl ⟨[frame], frames, rfl, h⟩

theorem goesOn_deliver (outcome : Except RuntimeFault Value) (line : Nat) :
    GoesOn control taken frames (deliver outcome line frames state) := by
  cases outcome <;> exact .keep rfl False.elim

theorem moves_call (callee : Value) (args : List Value) (line : Nat) :
    Moves control (frame :: frames) state (call setting callee args line frames state) := by
  unfold call
  split
  · split
    · exact GoesOn.moves_cons (.keep rfl False.elim)
    · split
      · exact GoesOn.moves_cons (.keep rfl False.elim)
      · exact .inr ⟨_, _, _, rfl⟩
  · split
    · exact GoesOn.moves_cons (.keep rfl False.elim)
    · split
      · exact GoesOn.moves_cons (.keep rfl False.elim)
      · unfold answer
        split <;> exact GoesOn.moves_cons (.keep rfl False.elim)
  · exact GoesOn.moves_cons (.keep rfl False.elim)

theorem moves_nextArgument (callee : Value) (before : List Value) (rest : List Expr)
    (line : Nat) :
    Moves control (frame :: frames) state
      (nextArgument setting callee before rest line frames state) := by
  cases rest with
  | nil => exact moves_call callee _ line
  | cons arg more => exact GoesOn.moves_cons (.put rfl ⟨nofun, nofun⟩ False.elim False.elim)

theorem moves_stepEval (expr : Expr) :
    Moves (.eval expr) frames state (stepEval setting expr frames state) := by
  refine GoesOn.moves ?_
  cases expr with
  | literal value line | grouping inner line | commandRef name line => exact .keep rfl False.elim
  | «variable» id name line =>
    unfold stepEval
    dsimp only
    split <;> exact .keep rfl False.elim
  | _ => exact .put rfl ⟨nofun, nofun⟩ False.elim False.elim

theorem moves_stepExec (stmt : Stmt) :
    Moves (.exec stmt) frames state (stepExec stmt frames state) := by
  refine GoesOn.moves ?_
  have hallows : stmt.MayReturn → Allows (.exec stmt) [] := @allows_control (.exec stmt)
  cases stmt with
  | block body =>
    exact .put rfl ⟨nofun, nofun⟩ False.elim fun h => hallows (Stmt.MayReturnAll.block h)
  | branch condition thenBranch elseBranch line =>
    refine .put rfl ⟨nofun, nofun⟩ False.elim ?_
    rintro (h | ⟨other, hother, h⟩)
    · exact hallows (h.branch elseBranch)
    · obtain rfl : elseBranch = some other := hother
      exact hallows h.otherwise
  | loop condition body line =>
    exact .put rfl ⟨nofun, nofun⟩ False.elim fun h => hallows (Stmt.MayReturn.loop h)
  | «return» value line =>
    have hreturn := hallows (Stmt.mayReturn_return value)
    cases value with
    | none => exact .keep rfl fun _ => hreturn
    | some expr => exact .put rfl ⟨nofun, nofun⟩ False.elim fun _ => hreturn
  | declare name initializer line =>
    cases initializer with
    | none => exact .keep rfl False.elim
    | some expr => exact .put rfl ⟨nofun, nofun⟩ False.elim False.elim
  | expression expr line | print expr line =>
    exact .put rfl ⟨nofun, nofun⟩ False.elim False.elim
  | function name params body line => exact .keep rfl False.elim
  | command action =>
    cases action with
    | deliver word args line | exit line => exact .keep rfl False.elim
    | help topic line =>
      unfold stepExec
      dsimp only
      split <;> exact .keep rfl False.elim

theorem moves_stepGather (gathering : Gathering) :
    Moves (.gather gathering) frames state (stepGather gathering frames state) := by
  refine GoesOn.moves ?_
  unfold stepGather
  split <;> split <;>
    first
    | exact .keep rfl False.elim
    | exact .put rfl ⟨nofun, nofun⟩ False.elim False.elim

theorem moves_stepValue (value : Value) (frame : Frame) :
    Moves (.value value) (frame :: frames) state (stepValue setting value frame frames state) := by
  cases frame with
  | unary op line | right op left line => exact (goesOn_deliver _ line).moves_cons
  | left op right line => exact GoesOn.moves_cons (.put rfl ⟨nofun, nofun⟩ False.elim False.elim)
  | callee args line => exact moves_nextArgument value [] args line
  | argument callee before rest line => exact moves_nextArgument callee (value :: before) rest line
  | logical op right | assign id name line | print line =>
    unfold stepValue
    dsimp only
    split <;> exact GoesOn.moves_cons (.keep rfl False.elim)
  | giveBack => exact GoesOn.moves_cons (.keep rfl fun _ => allows_frame nofun trivial)
  | branch thenBranch elseBranch =>
    unfold stepValue
    dsimp only
    split
    · exact GoesOn.moves_cons (.keep rfl fun h => allows_frame nofun (.inl h))
    · split
      · exact GoesOn.moves_cons (.keep rfl fun h => allows_frame nofun (.inr ⟨_, rfl, h⟩))
      · exact GoesOn.moves_cons (.keep rfl False.elim)
  | loopTest condition body =>
    unfold stepValue
    dsimp only
    split
    · exact GoesOn.moves_cons (.put rfl ⟨nofun, nofun⟩ (fun h => allows_frame nofun h)
        fun h => allows_frame nofun h)
    · exact GoesOn.moves_cons (.keep rfl False.elim)
  | discard | declare name | gather gathering => exact GoesOn.moves_cons (.keep rfl False.elim)
  | call | hostCall | loopBody condition body | block rest outer | program rest =>
    exact GoesOn.moves (.keep rfl False.elim)

theorem moves_stepDone (frame : Frame) :
    Moves .done (frame :: frames) state (stepDone setting frame frames state) := by
  refine GoesOn.moves_cons ?_
  cases frame with
  | loopBody condition body =>
    exact .put rfl ⟨nofun, nofun⟩ False.elim fun h => allows_frame nofun h
  | block rest outer | program rest =>
    cases rest with
    | nil => exact .keep rfl False.elim
    | cons stmt rest =>
      exact .put rfl ⟨nofun, nofun⟩ (fun h => allows_frame nofun (Stmt.MayReturn.head h))
        fun h => allows_frame nofun (Stmt.MayReturnAll.tail h)
  | _ => exact .keep rfl False.elim

theorem moves_stepReturning (value : Value) (frame : Frame) :
    Moves (.returning value) (frame :: frames) state (stepReturning value frame frames state) := by
  cases frame with
  | call | hostCall => exact GoesOn.moves_cons (.keep rfl False.elim)
  | program rest => exact GoesOn.moves (.keep rfl False.elim)
  | _ => exact GoesOn.moves_cons (.keep rfl fun _ => ⟨by simp, .inl trivial⟩)

theorem moves_stepHalting (halt : Halt) (frame : Frame) :
    Moves (.halting halt) (frame :: frames) state (stepHalting halt frame frames state) := by
  cases frame <;> exact GoesOn.moves_cons (.keep rfl False.elim)

end Steps

theorem moves_step (setting : Setting) (machine : Machine) :
    Moves machine.control machine.frames machine.state (machine.step setting) := by
  have hrest : ∀ {control : Control} {state : Interpreter},
      Moves control [] state ⟨control, [], state⟩ :=
    GoesOn.moves (.keep rfl allows_control)
  obtain ⟨control, frames, state⟩ := machine
  cases control with
  | eval expr => exact moves_stepEval expr
  | exec stmt => exact moves_stepExec stmt
  | gather gathering => exact moves_stepGather gathering
  | value value =>
    cases frames with
    | nil => exact hrest
    | cons frame rest => exact moves_stepValue value frame
  | done =>
    cases frames with
    | nil => exact hrest
    | cons frame rest => exact moves_stepDone frame
  | returning value =>
    cases frames with
    | nil => exact hrest
    | cons frame rest => exact moves_stepReturning value frame
  | halting halt =>
    cases frames with
    | nil => exact hrest
    | cons frame rest => exact moves_stepHalting halt frame

/-! ## Whatever may return is above a call -/

/-- Whatever may return among the frames has the frame of a call below it, and no frame is
that of a call by the host. -/
def Enclosed : List Frame → Prop
  | [] => True
  | frame :: frames => (frame.MayReturn → .call ∈ frames) ∧ frame ≠ .hostCall ∧ Enclosed frames

/-- Whatever may return in the machine has the frame of a call below it. -/
structure Contained (machine : Machine) : Prop where
  control : machine.control.MayReturn → .call ∈ machine.frames
  frames : Enclosed machine.frames
  grounded : Grounded machine.frames

section Enclosed

variable {above below : List Frame}

theorem Enclosed.of_append (h : Enclosed (above ++ below)) : Enclosed below := by
  induction above with
  | nil => exact h
  | cons frame above ih => exact ih h.2.2

theorem Enclosed.call_mem (h : Enclosed (above ++ below))
    (hmay : ∃ frame ∈ above, frame.MayReturn) : .call ∈ above ++ below := by
  obtain ⟨frame, hframe, hmay⟩ := hmay
  induction above with
  | nil => cases hframe
  | cons first above ih =>
    rcases List.mem_cons.mp hframe with rfl | hframe
    · exact List.mem_cons_of_mem _ (h.1 hmay)
    · exact List.mem_cons_of_mem _ (ih h.2.2 hframe)

theorem Enclosed.append (h : Enclosed below)
    (habove : ∀ frame ∈ above, (frame.MayReturn → .call ∈ below) ∧ frame ≠ .hostCall) :
    Enclosed (above ++ below) := by
  induction above with
  | nil => exact h
  | cons frame above ih =>
    obtain ⟨⟨hreturn, hhost⟩, habove⟩ := List.forall_mem_cons.mp habove
    exact ⟨fun hmay => List.mem_append_right _ (hreturn hmay), hhost, ih habove⟩

theorem Enclosed.tail {frames : List Frame} (h : Enclosed frames) : Enclosed frames.tail := by
  cases frames with
  | nil => exact h
  | cons frame frames => exact h.2.2

end Enclosed

variable {setting : Setting} {machine : Machine}

theorem Contained.step (h : machine.Contained) : (machine.step setting).Contained := by
  obtain ⟨hcontrol, hframes, hgrounded⟩ := h
  obtain ⟨taken, below, hsplit, put, hput, hcalls, hallows⟩ | ⟨decl, closure, args, hnext⟩ :=
    moves_step setting machine
  · rw [hsplit] at hcontrol hframes
    -- the call below what may return is not among the frames that were taken off
    have hcall : Allows machine.control taken → .call ∈ below := by
      rintro ⟨hnone, hmay⟩
      have hmem := hmay.elim hcontrol hframes.call_mem
      exact (List.mem_append.mp hmem).resolve_left hnone
    refine ⟨fun hmay => ?_, ?_, hgrounded.step⟩
    · rw [hput]
      exact List.mem_append_right _ (hcall (hallows (.inl hmay)))
    · rw [hput]
      exact hframes.of_append.append fun frame hframe =>
        ⟨fun hmay => hcall (hallows (.inr ⟨frame, hframe, hmay⟩)), (hcalls frame hframe).2⟩
  · refine ⟨?_, ?_, hgrounded.step⟩
    · rw [hnext]
      exact False.elim
    · rw [hnext]
      exact ⟨fun _ => List.mem_cons_self, nofun, False.elim, nofun, hframes.tail⟩

theorem Contained.after (h : machine.Contained) (n : Nat) :
    (machine.after setting n).Contained :=
  after_induction (fun _ h => h.step) h n

/-! ## Where a call has started -/

/-- The next step enters the body of a function. When the call ends, it goes on with the given
frames. -/
def StartsCall (setting : Setting) (machine : Machine) (outer : List Frame) : Prop :=
  Entered outer machine.state (machine.step setting)

theorem suffix_of_put {put below outer : List Frame}
    (h : .call :: outer <:+ put ++ below) (hput : .call ∉ put) : .call :: outer <:+ below := by
  induction put with
  | nil => exact h
  | cons frame put ih =>
    obtain ⟨hne, hput⟩ := not_or.mp (mt List.mem_cons.mpr hput)
    rcases List.suffix_cons_iff.mp h with heq | h
    · exact absurd (List.cons.inj heq).1 hne
    · exact ih h hput

/-- A call that is in progress has started in some step, and has been in progress since. -/
theorem exists_startsCall (hnone : .call ∉ machine.frames) {n : Nat} {outer : List Frame}
    (h : .call :: outer <:+ (machine.after setting n).frames) :
    ∃ start < n, (machine.after setting start).StartsCall setting outer ∧
      ∀ k, start < k → k ≤ n → .call :: outer <:+ (machine.after setting k).frames := by
  induction n with
  | zero => exact absurd (h.subset List.mem_cons_self) hnone
  | succ n ih =>
    have hlater : .call :: outer <:+ (machine.after setting n).frames →
        ∃ start < n + 1, (machine.after setting start).StartsCall setting outer ∧
          ∀ k, start < k → k ≤ n + 1 → .call :: outer <:+ (machine.after setting k).frames := by
      intro hbefore
      obtain ⟨start, hlt, hstarts, hsince⟩ := ih hbefore
      refine ⟨start, Nat.lt_succ_of_lt hlt, hstarts, fun k hk hle => ?_⟩
      rcases Nat.le_succ_iff.mp hle with hle | rfl
      · exact hsince k hk hle
      · exact h
    have hstep := h
    rw [after_succ] at hstep
    obtain ⟨taken, below, hsplit, put, hput, hcalls, -⟩ | ⟨decl, closure, args, hnext⟩ :=
      moves_step setting (machine.after setting n)
    · rw [hput] at hstep
      -- the call was there before, since the step has put none on
      have hbelow := suffix_of_put hstep fun hmem => (hcalls _ hmem).1 rfl
      exact hlater (hsplit ▸ hbelow.trans (List.suffix_append _ _))
    · have hentered : .call :: outer <:+ .call :: (machine.after setting n).frames.tail := by
        rw [hnext] at hstep
        exact (List.suffix_cons_iff.mp hstep).resolve_left nofun
      rcases List.suffix_cons_iff.mp hentered with heq | hbelow
      · obtain ⟨-, rfl⟩ := List.cons.inj heq
        refine ⟨n, Nat.lt_succ_self n, ⟨decl, closure, args, hnext⟩, fun k hk hle => ?_⟩
        obtain rfl : k = n + 1 := Nat.le_antisymm hle hk
        exact h
      · exact hlater (hbelow.trans (List.tail_suffix _))

/-! ## The way of a returned value -/

/-- A machine that returns a value takes the frames above the innermost call off, one in each
step, and then hands the value to what waits for the call. -/
structure ReturnsTo (setting : Setting) (value : Value) (inner outer : List Frame)
    (machine : Machine) : Prop where
  frames : machine.frames = inner ++ .call :: outer
  innermost : .call ∉ inner
  unwinds : ∀ k ≤ inner.length, machine.after setting k =
    ⟨.returning value, inner.drop k ++ .call :: outer,
      { machine.state with current := home (inner.take k) machine.state.current }⟩
  hands : machine.after setting (inner.length + 1) =
    ⟨.value value, outer,
      { machine.state with
        current := home inner machine.state.current
        callDepth := machine.state.callDepth - 1 }⟩

section Unwinding

variable {value : Value} {state : Interpreter} {inner below outer : List Frame}

/-- Frames that belong neither to a call nor to the program. -/
def Inner : Frame → Prop
  | .call | .hostCall | .program _ => False
  | _ => True

theorem home_cons (frame : Frame) (frames : List Frame) (current : ScopeId) :
    home (frame :: frames) current = home frames (home [frame] current) := by
  cases frame <;> rfl

theorem stepReturning_of_inner {frame : Frame} (h : Inner frame) :
    stepReturning value frame below state =
      ⟨.returning value, below, { state with current := home [frame] state.current }⟩ := by
  cases frame <;> first | rfl | cases h

theorem after_returning (hinner : ∀ frame ∈ inner, Inner frame) {k : Nat}
    (hk : k ≤ inner.length) :
    after setting k ⟨.returning value, inner ++ below, state⟩ =
      ⟨.returning value, inner.drop k ++ below,
        { state with current := home (inner.take k) state.current }⟩ := by
  induction k generalizing inner state with
  | zero => rfl
  | succ k ih =>
    cases inner with
    | nil => cases hk
    | cons frame inner =>
      obtain ⟨hframe, hinner⟩ := List.forall_mem_cons.mp hinner
      have hstep : after setting (k + 1) ⟨.returning value, frame :: (inner ++ below), state⟩ =
          after setting k (stepReturning value frame (inner ++ below) state) := rfl
      rw [List.cons_append, hstep, stepReturning_of_inner hframe,
        ih hinner (Nat.le_of_succ_le_succ hk), List.drop_succ_cons, List.take_succ_cons,
        home_cons frame (inner.take k)]

theorem inner_of_enclosed (hframes : Enclosed (inner ++ .call :: outer))
    (hgrounded : Grounded (inner ++ .call :: outer)) (hnone : .call ∉ inner) :
    ∀ frame ∈ inner, Inner frame := by
  induction inner with
  | nil => exact nofun
  | cons frame inner ih =>
    obtain ⟨hcall, hnone⟩ := not_or.mp (mt List.mem_cons.mpr hnone)
    refine List.forall_mem_cons.mpr ⟨?_, ih hframes.2.2 hgrounded.tail hnone⟩
    cases frame with
    | call => exact absurd rfl hcall
    | hostCall => exact absurd rfl hframes.2.1
    | program rest => exact absurd (show inner ++ .call :: outer = [] from hgrounded) (by simp)
    | _ => exact trivial

/-- A returned value meets the frame of a call. -/
theorem Contained.returnsTo {frames : List Frame}
    (h : Contained ⟨.returning value, frames, state⟩) :
    ∃ inner outer, ReturnsTo setting value inner outer ⟨.returning value, frames, state⟩ := by
  obtain ⟨inner, outer, rfl, hnone⟩ := List.eq_append_cons_of_mem (h.control trivial)
  have hinner := inner_of_enclosed h.frames h.grounded hnone
  have hunwinds : ∀ k ≤ inner.length,
      Machine.after setting k ⟨.returning value, inner ++ .call :: outer, state⟩ =
        ⟨.returning value, inner.drop k ++ .call :: outer,
          { state with current := home (inner.take k) state.current }⟩ :=
    fun k hk => after_returning hinner hk
  refine ⟨inner, outer, rfl, hnone, hunwinds, ?_⟩
  rw [after_succ, hunwinds _ (Nat.le_refl _), List.drop_length, List.take_length]
  rfl

end Unwinding

/-! ## Programs -/

theorem contained_start {program : List Stmt} (hnone : ¬Stmt.MayReturnAll program)
    (state : Interpreter) : (state.start program).Contained := by
  cases program with
  | nil => exact ⟨False.elim, trivial, trivial⟩
  | cons stmt rest =>
    exact ⟨fun h => absurd h.head hnone,
      ⟨fun h => absurd (Stmt.MayReturnAll.tail h) hnone, nofun, trivial⟩, rfl⟩

theorem call_not_mem_start (program : List Stmt) (state : Interpreter) :
    .call ∉ (state.start program).frames := by
  cases program with
  | nil => exact nofun
  | cons stmt rest => exact nofun

/-- **No program loses a returned value.** Let a program that resolution accepts run in any
state, and so after any inputs that were run before. None of its statements returns a value
when it is carried out on its own, whatever the state then, and the frame of the program never
meets a returned value. Whenever the machine returns a value, a call is in progress that has
started in an earlier step. All that the following steps do is to take the frames above the
innermost call off; then the value is handed to what has waited since that call started. -/
theorem returns_end_calls {program : List Stmt} {distances : List (NodeId × Nat)}
    (haccepted : resolve program = .ok distances) (setting : Setting) (state : Interpreter) :
    (∀ stmt ∈ program, ∀ (state : Interpreter) n value final,
      after setting n ⟨.exec stmt, [], state⟩ ≠ ⟨.returning value, [], final⟩) ∧
    (∀ n value rest final,
      (state.start program).after setting n ≠ ⟨.returning value, [.program rest], final⟩) ∧
    ∀ n value, ((state.start program).after setting n).control = .returning value →
      ∃ inner outer, ReturnsTo setting value inner outer ((state.start program).after setting n) ∧
        ∃ start < n, ((state.start program).after setting start).StartsCall setting outer ∧
          ∀ k, start < k → k ≤ n →
            .call :: outer <:+ ((state.start program).after setting k).frames := by
  have hnone := not_mayReturnAll_of_resolve haccepted
  refine ⟨fun stmt hstmt state n value final hreturning => ?_,
    fun n value rest final hreturning => ?_, fun n value hreturning => ?_⟩
  · have hstart : Contained ⟨.exec stmt, [], state⟩ :=
      ⟨fun h => absurd (Stmt.MayReturn.of_mem h hstmt) hnone, trivial, trivial⟩
    have hreached := @Contained.after setting _ hstart n
    rw [hreturning] at hreached
    exact absurd (hreached.control trivial) List.not_mem_nil
  · have hreached := @Contained.after setting _ (contained_start hnone state) n
    rw [hreturning] at hreached
    cases hreached.control trivial with
    | tail _ hnil => cases hnil
  · have hreached := @Contained.after setting _ (contained_start hnone state) n
    have hstarted := @exists_startsCall setting _ (call_not_mem_start program state) n
    generalize (state.start program).after setting n = machine at hreturning hreached hstarted ⊢
    obtain ⟨control, frames, reached⟩ := machine
    obtain rfl : control = .returning value := hreturning
    obtain ⟨inner, outer, hreturns⟩ := @Contained.returnsTo setting _ _ _ hreached
    refine ⟨inner, outer, hreturns, hstarted ?_⟩
    rw [hreturns.frames]
    exact List.suffix_append _ _

/-- A function returns from a loop in a block, and a statement of the block comes after it. -/
theorem returns_end_calls_of_loop :
    let setting : Setting := ⟨.byName, some 1, fun _ _ _ => .ok .null⟩
    let state := Interpreter.initial setting Registry.empty .unlimited
    let program : List Stmt :=
      [.function "f" [] [.block [.loop (.literal (.bool true) 1)
          (.return (some (.literal (.string "done") 1)) 1) 1, .print (.literal .null 2) 2]] 1,
        .expression (.call (.variable 0 "f" 3) [] 3) 3]
    resolve program = .ok [(0, 0)] ∧
      ((state.start program).after setting 15).control = .returning (.string "done") ∧
      ∃ inner outer, ReturnsTo setting (.string "done") inner outer
          ((state.start program).after setting 15) ∧
        ∃ start < 15, ((state.start program).after setting start).StartsCall setting outer ∧
          ∀ k, start < k → k ≤ 15 →
            .call :: outer <:+ ((state.start program).after setting k).frames := by
  intro setting state program
  have haccepted : resolve program = .ok [(0, 0)] := by rfl
  have hreturning : ((state.start program).after setting 15).control =
      .returning (.string "done") := by with_unfolding_all rfl
  obtain ⟨-, -, hreturns⟩ := returns_end_calls haccepted setting state
  exact ⟨haccepted, hreturning, hreturns 15 _ hreturning⟩

end Machine

end CommandScript
