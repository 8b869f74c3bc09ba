import CommandScript.Proofs.Grammar.Commands
import CommandScript.Proofs.Machine.Commands
import CommandScript.Proofs.Machine.Constant
import CommandScript.Proofs.Machine.Outcome

/-!
# Which modules a command reaches

The arguments of a command are evaluated from left to right until one of them is stopped by a
fault or by an exit. Then the command itself is not delivered to any module. Otherwise it is
delivered once to each module that offers its word, in the order of registration, and nothing
but the record of the effects changes.

* `Expr.Stops`, `Arg.StopAll`: expressions and arguments that are stopped.
* `Arg.StopAll.comesTo`: a command whose arguments are stopped is stopped in the same state.
* `Arg.all_end`: the arguments of a command that comes to rest have values, or they are stopped.
* `Registry.deliver_eq`: the receivers of a command.
* `Machine.commands_reach_modules`: the outcome of a command.
-/

namespace CommandScript

/-! ## Arguments that are stopped -/

/-- Evaluated on its own, the expression is stopped and leaves the last state. -/
def Expr.Stops (setting : Setting) (state : Interpreter) (expr : Expr) (halt : Halt)
    (final : Interpreter) : Prop :=
  Machine.ComesTo setting ⟨.eval expr, [], state⟩ ⟨.halting halt, [], final⟩

/-- One of the values is stopped, and those before it have been evaluated. -/
inductive ArgValue.StopAll (setting : Setting) :
    Interpreter → List ArgValue → Halt → Interpreter → Prop where
  | here {state final : Interpreter} {expr : Expr} {rest : List ArgValue} {halt : Halt} :
      expr.Stops setting state halt final →
      ArgValue.StopAll setting state (.expr expr :: rest) halt final
  | later {state next final : Interpreter} {arg : ArgValue} {rest : List ArgValue}
      {value : Value} {halt : Halt} : arg.Yields setting state value next →
      ArgValue.StopAll setting next rest halt final →
      ArgValue.StopAll setting state (arg :: rest) halt final

inductive Arg.Stops (setting : Setting) : Interpreter → Arg → Halt → Interpreter → Prop where
  | positional {state final : Interpreter} {expr : Expr} {halt : Halt} :
      expr.Stops setting state halt final →
      Arg.Stops setting state (.positional (.expr expr)) halt final
  | parameter {state final : Interpreter} {name : String} {args : List ArgValue} {halt : Halt} :
      ArgValue.StopAll setting state args halt final →
      Arg.Stops setting state (.parameter name args) halt final

/-- One of the arguments is stopped, and those before it have been evaluated. -/
inductive Arg.StopAll (setting : Setting) :
    Interpreter → List Arg → Halt → Interpreter → Prop where
  | here {state final : Interpreter} {arg : Arg} {rest : List Arg} {halt : Halt} :
      arg.Stops setting state halt final → Arg.StopAll setting state (arg :: rest) halt final
  | later {state next final : Interpreter} {arg : Arg} {rest : List Arg} {item : Given}
      {halt : Halt} : arg.Yields setting state item next →
      Arg.StopAll setting next rest halt final →
      Arg.StopAll setting state (arg :: rest) halt final

section Stopping

variable {setting : Setting} {state final : Interpreter} {halt : Halt} (frames : List Frame)
  (word : String) (line : Nat) (map : CommandMap) (rest : List Arg)

theorem Expr.Stops.comesTo {expr : Expr} (h : expr.Stops setting state halt final) :
    Machine.ComesTo setting ⟨.eval expr, frames, state⟩ ⟨.halting halt, frames, final⟩ :=
  Machine.ComesTo.onto h rfl frames

theorem ArgValue.StopAll.comesTo {args : List ArgValue}
    (h : ArgValue.StopAll setting state args halt final) (name : String) (before : List Value) :
    Machine.ComesTo setting
      ⟨.gather ⟨word, line, map, some ⟨name, before, args⟩, rest⟩, frames, state⟩
      ⟨.halting halt, frames, final⟩ := by
  induction h generalizing before with
  | here hexpr => exact .of_step ((hexpr.comesTo _).trans (.of_step (.refl _)))
  | later harg _ ih =>
    exact (harg.comesTo frames word line map rest name before _).trans (ih _)

theorem Arg.Stops.comesTo {arg : Arg} (h : arg.Stops setting state halt final) :
    Machine.ComesTo setting ⟨.gather ⟨word, line, map, none, arg :: rest⟩, frames, state⟩
      ⟨.halting halt, frames, final⟩ := by
  cases h with
  | positional hexpr => exact .of_step ((hexpr.comesTo _).trans (.of_step (.refl _)))
  | parameter hvalues => exact .of_step (hvalues.comesTo frames word line map rest _ [])

theorem Arg.StopAll.comesTo {args : List Arg} (h : Arg.StopAll setting state args halt final) :
    Machine.ComesTo setting ⟨.gather ⟨word, line, map, none, args⟩, frames, state⟩
      ⟨.halting halt, frames, final⟩ := by
  induction h generalizing map with
  | here harg => exact harg.comesTo frames word line map _
  | later hitem _ ih => exact (hitem.comesTo frames word line map _).trans (ih _)

end Stopping

/-! ## Arguments end with values, or they are stopped -/

/-- The machine comes to rest. -/
def Machine.Rests (setting : Setting) (machine : Machine) : Prop :=
  ∃ n, (machine.after setting n).atRest = true

theorem Machine.Rests.of_comesTo {setting : Setting} {machine other : Machine}
    (h : machine.Rests setting) (hother : machine.ComesTo setting other) :
    other.Rests setting := by
  obtain ⟨n, hrest⟩ := h
  obtain ⟨k, rfl⟩ := hother
  refine ⟨n, ?_⟩
  rw [← after_add, Nat.add_comm, after_add, after_of_atRest hrest]
  exact hrest

section Ending

variable {setting : Setting} {state : Interpreter} {frames : List Frame} {word : String}
  {line : Nat} {map : CommandMap} {rest : List Arg}

theorem Expr.ends {expr : Expr} {frame : Frame}
    (h : Machine.Rests setting ⟨.eval expr, frame :: frames, state⟩) :
    (∃ value final, expr.Yields setting state value final) ∨
      ∃ halt final, expr.Stops setting state halt final := by
  obtain ⟨n, hrest⟩ := h
  obtain ⟨k, -, hrest⟩ :=
    @Machine.rests_of_onto setting ⟨.eval expr, [], state⟩ frame frames n hrest
  exact (Machine.eval_comes_to_rest hrest).imp (fun ⟨value, final, h⟩ => ⟨value, final, k, h⟩)
    fun ⟨halt, final, h⟩ => ⟨halt, final, k, h⟩

theorem ArgValue.all_end {args : List ArgValue} {name : String} {before : List Value}
    (h : Machine.Rests setting
      ⟨.gather ⟨word, line, map, some ⟨name, before, args⟩, rest⟩, frames, state⟩) :
    (∃ values final, ArgValue.YieldAll setting state args values final) ∨
      ∃ halt final, ArgValue.StopAll setting state args halt final := by
  induction args generalizing before state with
  | nil => exact .inl ⟨[], state, .nil⟩
  | cons arg args ih =>
    have hlater : ∀ {value next}, arg.Yields setting state value next →
        (∃ values final, ArgValue.YieldAll setting state (arg :: args) values final) ∨
          ∃ halt final, ArgValue.StopAll setting state (arg :: args) halt final := by
      intro value next harg
      exact (ih (h.of_comesTo (harg.comesTo frames word line map rest name before args))).imp
        (fun ⟨values, final, hvalues⟩ => ⟨value :: values, final, .cons harg hvalues⟩)
        fun ⟨halt, final, hstop⟩ => ⟨halt, final, .later harg hstop⟩
    cases arg with
    | word text => exact hlater (.word text)
    | expr expr =>
      obtain ⟨value, next, hexpr⟩ | ⟨halt, final, hexpr⟩ :=
        Expr.ends (h.of_comesTo (.of_step (.refl _)))
      · exact hlater (.expr hexpr)
      · exact .inr ⟨halt, final, .here hexpr⟩

theorem Arg.ends {arg : Arg}
    (h : Machine.Rests setting ⟨.gather ⟨word, line, map, none, arg :: rest⟩, frames, state⟩) :
    (∃ item final, arg.Yields setting state item final) ∨
      ∃ halt final, arg.Stops setting state halt final := by
  cases arg with
  | flag name => exact .inl ⟨_, _, .flag name⟩
  | positional value =>
    cases value with
    | word text => exact .inl ⟨_, _, .positional (.word text)⟩
    | expr expr =>
      obtain ⟨value, final, hexpr⟩ | ⟨halt, final, hexpr⟩ :=
        Expr.ends (h.of_comesTo (.of_step (.refl _)))
      · exact .inl ⟨_, final, .positional (.expr hexpr)⟩
      · exact .inr ⟨halt, final, .positional hexpr⟩
  | parameter name values =>
    obtain ⟨held, final, hvalues⟩ | ⟨halt, final, hvalues⟩ :=
      ArgValue.all_end (h.of_comesTo (.of_step (.refl _)))
    · exact .inl ⟨_, final, .parameter hvalues⟩
    · exact .inr ⟨halt, final, .parameter hvalues⟩

/-- The arguments of a command that comes to rest have values, or one of them is stopped. -/
theorem Arg.all_end {args : List Arg}
    (h : Machine.Rests setting ⟨.gather ⟨word, line, map, none, args⟩, frames, state⟩) :
    (∃ given final, Arg.YieldAll setting state args given final) ∨
      ∃ halt final, Arg.StopAll setting state args halt final := by
  induction args generalizing map state with
  | nil => exact .inl ⟨[], state, .nil⟩
  | cons arg args ih =>
    obtain ⟨item, next, harg⟩ | ⟨halt, final, harg⟩ := Arg.ends h
    · exact (ih (h.of_comesTo (harg.comesTo frames word line map args))).imp
        (fun ⟨given, final, hgiven⟩ => ⟨item :: given, final, .cons harg hgiven⟩)
        fun ⟨halt, final, hstop⟩ => ⟨halt, final, .later harg hstop⟩
    · exact .inr ⟨halt, final, .here harg⟩

end Ending

/-! ## Evaluation and the registry -/

section Constant

variable {setting : Setting} {state final : Interpreter}

theorem Expr.Yields.registry {expr : Expr} {value : Value}
    (h : expr.Yields setting state value final) : final.registry = state.registry := by
  obtain ⟨n, hn⟩ := h
  have hsame := (Machine.conserves_after setting n ⟨.eval expr, [], state⟩).registry
  rwa [hn] at hsame

theorem ArgValue.Yields.registry {arg : ArgValue} {value : Value}
    (h : arg.Yields setting state value final) : final.registry = state.registry := by
  cases h with
  | word text => rfl
  | expr hexpr => exact hexpr.registry

theorem ArgValue.YieldAll.registry {args : List ArgValue} {values : List Value}
    (h : ArgValue.YieldAll setting state args values final) :
    final.registry = state.registry := by
  induction h with
  | nil => rfl
  | cons harg _ ih => exact ih.trans harg.registry

theorem Arg.YieldAll.registry {args : List Arg} {given : List Given}
    (h : Arg.YieldAll setting state args given final) : final.registry = state.registry := by
  induction h with
  | nil => rfl
  | cons harg _ ih =>
    refine ih.trans ?_
    cases harg with
    | flag name => rfl
    | positional hvalue => exact hvalue.registry
    | parameter hvalues => exact hvalues.registry

end Constant

/-! ## Receivers -/

/-- A word of the module is the given one, up to the case of ASCII letters. -/
def CommandModule.Offers (module : CommandModule) (word : String) : Prop :=
  ∃ offered ∈ module.commands, Text.lowered offered = Text.lowered word

instance (module : CommandModule) (word : String) : Decidable (module.Offers word) :=
  inferInstanceAs (Decidable (∃ offered ∈ module.commands, _))

theorem CommandModule.accepts_iff {module : CommandModule} {word : String} :
    module.accepts word = true ↔ module.Offers word := by
  simp only [accepts, Offers, List.any_eq_true, Text.sameWord_iff]

/-- Every module that offers the word is called once, in the order of registration. -/
theorem Registry.deliver_eq (registry : Registry) (word : String) (map : CommandMap) :
    registry.deliver word map =
      (registry.modules.filter fun entry => entry.2.Offers word).map fun entry =>
        ⟨entry.1, word, map, entry.2.receive word map⟩ := by
  have haccepts : ∀ entry : String × CommandModule,
      entry.2.accepts word = decide (entry.2.Offers word) := fun entry =>
    Bool.eq_iff_iff.mpr (CommandModule.accepts_iff.trans (decide_eq_true_iff).symm)
  simp only [deliver, accepting, haccepts]

theorem Effect.output_append_delivered (effects : List Effect) (deliveries : List Delivery) :
    Effect.output (effects ++ deliveries.map .delivered) = Effect.output effects := by
  unfold output
  rw [List.foldl_append, List.foldl_map]
  generalize List.foldl _ ByteArray.empty effects = bytes
  induction deliveries with
  | nil => rfl
  | cons delivery rest ih => exact ih

theorem CommandsBetween.written {levels : Nat} {before after : List Token}
    {commands : List Command} (h : CommandsBetween levels before commands after)
    {action : Command} (hmem : action ∈ commands) : ∃ tokens, action.Written levels tokens := by
  induction h with
  | none => cases hmem
  | command hwritten _ _ ih =>
    rcases List.mem_cons.mp hmem with rfl | hmem
    · exact ⟨_, hwritten⟩
    · exact ih hmem

/-- The word of a command that was read has no capital letters. -/
theorem lowered_of_parse {mode : InputMode} {tokens : List Token} {nextId : NodeId}
    {program : List Stmt} (hprogram : (parse mode tokens nextId).program = .ok program)
    {word : String} {args : List Arg} {line : Nat}
    (hmem : .deliver word args line ∈ Stmt.deliveredAll program) : Text.lowered word = word := by
  obtain ⟨written, hwritten⟩ := (commandsBetween_of_parse hprogram).written hmem
  cases hwritten with
  | deliver _ _ _ => exact Text.lowered_lowered _

/-! ## The outcome of a command -/

/-- **A command reaches each module that offers its word exactly once.** Its arguments are
evaluated in order, each of them once. If all of them have values, the command is delivered to
the modules of the registry that offer the word, in the order of registration; each receives
the word and the same map, whatever the others answer, and nothing but the record of effects
changes, with the same output. If one of them is stopped, the arguments behind it are not
evaluated, and the command is stopped in the state that this one leaves. There is no other
outcome. The word of a command that was read has no capital letters. -/
theorem Machine.commands_reach_modules (setting : Setting) (state : Interpreter) (word : String)
    (args : List Arg) (line : Nat) :
    (∀ given evaluated, Arg.YieldAll setting state args given evaluated →
      ∃ deliveries : List Delivery,
        deliveries = ((state.registry.modules.filter fun entry => entry.2.Offers word).map
          fun entry => ⟨entry.1, word, .ofGiven given, entry.2.receive word (.ofGiven given)⟩) ∧
        (∀ frames,
          ComesTo setting ⟨.exec (.command (.deliver word args line)), frames, state⟩
            ⟨.done, frames, { evaluated with
              effects := evaluated.effects ++ (deliveries.map .delivered).toArray }⟩) ∧
        Effect.output (evaluated.effects ++ (deliveries.map Effect.delivered).toArray).toList =
          Effect.output evaluated.effects.toList) ∧
    (∀ halt stopped, Arg.StopAll setting state args halt stopped → ∀ frames,
      ComesTo setting ⟨.exec (.command (.deliver word args line)), frames, state⟩
        ⟨.halting halt, frames, stopped⟩) ∧
    (Rests setting ⟨.exec (.command (.deliver word args line)), [], state⟩ →
      (∃ given evaluated, Arg.YieldAll setting state args given evaluated) ∨
        ∃ halt stopped, Arg.StopAll setting state args halt stopped) ∧
    ∀ mode tokens nextId program, (parse mode tokens nextId).program = .ok program →
      .deliver word args line ∈ Stmt.deliveredAll program → Text.lowered word = word := by
  refine ⟨fun given evaluated hgiven => ?_, fun halt stopped hstop frames => ?_, fun hrests => ?_,
    fun mode tokens nextId program hprogram => lowered_of_parse hprogram⟩
  · refine ⟨state.registry.deliver word (.ofGiven given), Registry.deliver_eq _ _ _,
      fun frames => ?_, ?_⟩
    · rw [← hgiven.registry]
      exact .of_step ((hgiven.comesTo frames word line .empty).trans (.of_step (.refl _)))
    · rw [Array.toList_append]
      exact Effect.output_append_delivered _ _
  · exact .of_step (hstop.comesTo frames word line .empty)
  · exact Arg.all_end (hrests.of_comesTo (.of_step (.refl _)))

/-- One module refuses the command, one does not offer its word, and one accepts it. Behind an
argument that is stopped, nothing is evaluated. -/
theorem Machine.commands_reach_modules_of_refusal :
    let setting : Setting := ⟨.byName, some 1, fun _ _ _ => .ok .null⟩
    let busy : CommandModule := ⟨"busy", ["Mix"], fun _ => none, fun _ _ => .refused "busy"⟩
    let door : CommandModule := ⟨"door", ["open"], fun _ => none, fun _ _ => .accepted⟩
    let lab : CommandModule := ⟨"lab", ["heat", "MIX"], fun _ => none, fun _ _ => .accepted⟩
    let registry := ((Registry.empty.install busy).install door).install lab
    let state := Interpreter.initial setting registry .unlimited
    let args : List Arg := [.positional (.word "water"), .flag "slow"]
    let given : List Given := [.positional (.string "water"), .flag "slow"]
    let stopping : List Arg :=
      [.positional (.expr (.variable 0 "missing" 1)), .positional (.word "salt")]
    let fault : Halt := .fault ⟨.undefinedVariable "missing", 1⟩
    Arg.YieldAll setting state args given state ∧
      ComesTo setting ⟨.exec (.command (.deliver "mix" args 1)), [], state⟩
        ⟨.done, [], { state with
          effects := state.effects ++ ([⟨"busy", "mix", .ofGiven given, .refused "busy"⟩,
            ⟨"lab", "mix", .ofGiven given, .accepted⟩].map Effect.delivered).toArray }⟩ ∧
      Arg.StopAll setting state stopping fault state ∧
      ComesTo setting ⟨.exec (.command (.deliver "mix" stopping 1)), [], state⟩
        ⟨.halting fault, [], state⟩ := by
  intro setting busy door lab registry state args given stopping fault
  have hgiven : Arg.YieldAll setting state args given state :=
    .cons (.positional (.word "water")) (.cons (.flag "slow") .nil)
  have hstop : Arg.StopAll setting state stopping fault state :=
    .here (.positional ⟨1, by with_unfolding_all rfl⟩)
  obtain ⟨hdelivered, -⟩ := commands_reach_modules setting state "mix" args 1
  obtain ⟨-, hstopped, -⟩ := commands_reach_modules setting state "mix" stopping 1
  obtain ⟨_, hdeliveries, hcomes, -⟩ := hdelivered given state hgiven
  have hreceivers : state.registry.modules.filter (fun entry => entry.2.Offers "mix") =
      [("busy", busy), ("lab", lab)] := by
    with_unfolding_all rfl
  rw [hreceivers] at hdeliveries
  refine ⟨hgiven, ?_, hstop, hstopped fault state hstop []⟩
  rw [hdeliveries] at hcomes
  exact hcomes []

end CommandScript
