import CommandScript.Grammar.Program
import CommandScript.Proofs.Command.Given
import CommandScript.Proofs.Machine.Stacking
import CommandScript.Token.Scan

/-!
# Commands and the maps that they deliver

The arguments of a command are evaluated from left to right, each in the state that the ones
before it leave. If all of them have values, the command is delivered with the map of what it
is given, in the state that the last one leaves.

So the map separates what the user wrote: flags, positional values and parameters, each in
the order of the source. There is one exception. A parameter may have the name of one of the
two keys that are kept for flags and positional values; then its values are added to them
(`parameter_named_flags`).

* `Expr.Yields`, `Arg.YieldAll`: expressions and arguments that have values.
* `Machine.ComesTo`: one machine comes to another in some steps.
* `Arg.YieldAll.comesTo`: the evaluation of all arguments.
* `Machine.delivered_map`: the map that a command is delivered with.
-/

namespace CommandScript

/-- The machine comes to the other one in some steps. -/
def Machine.ComesTo (setting : Setting) (machine other : Machine) : Prop :=
  ∃ n, machine.after setting n = other

namespace Machine.ComesTo

variable {setting : Setting} {first second third : Machine}

theorem refl (machine : Machine) : machine.ComesTo setting machine := ⟨0, rfl⟩

theorem trans (h : first.ComesTo setting second) (h' : second.ComesTo setting third) :
    first.ComesTo setting third := by
  obtain ⟨n, rfl⟩ := h
  obtain ⟨k, rfl⟩ := h'
  exact ⟨n + k, after_add setting n k first⟩

theorem of_step (h : (first.step setting).ComesTo setting second) :
    first.ComesTo setting second := trans ⟨1, rfl⟩ h

/-- What a machine comes to rest with on its own it hands to the frames below. -/
theorem onto (h : first.ComesTo setting second) (hrest : second.atRest = true)
    (base : List Frame) : (first.onto base).ComesTo setting (second.onto base) := by
  obtain ⟨n, rfl⟩ := h
  obtain ⟨k, -, hk⟩ := reaches_onto base hrest
  exact ⟨k, hk⟩

end Machine.ComesTo

/-! ## Arguments that have values -/

/-- Evaluated on its own, the expression has the value and leaves the last state. -/
def Expr.Yields (setting : Setting) (state : Interpreter) (expr : Expr) (value : Value)
    (final : Interpreter) : Prop :=
  Machine.ComesTo setting ⟨.eval expr, [], state⟩ ⟨.value value, [], final⟩

/-- A bare word stands for itself. -/
inductive ArgValue.Yields (setting : Setting) :
    Interpreter → ArgValue → Value → Interpreter → Prop where
  | word {state : Interpreter} (text : String) :
      ArgValue.Yields setting state (.word text) (.string text) state
  | expr {state final : Interpreter} {expr : Expr} {value : Value} :
      expr.Yields setting state value final →
      ArgValue.Yields setting state (.expr expr) value final

inductive ArgValue.YieldAll (setting : Setting) :
    Interpreter → List ArgValue → List Value → Interpreter → Prop where
  | nil {state : Interpreter} : ArgValue.YieldAll setting state [] [] state
  | cons {state next final : Interpreter} {arg : ArgValue} {args : List ArgValue} {value : Value}
      {values : List Value} : arg.Yields setting state value next →
      ArgValue.YieldAll setting next args values final →
      ArgValue.YieldAll setting state (arg :: args) (value :: values) final

inductive Arg.Yields (setting : Setting) : Interpreter → Arg → Given → Interpreter → Prop where
  | flag {state : Interpreter} (name : String) :
      Arg.Yields setting state (.flag name) (.flag name) state
  | positional {state final : Interpreter} {arg : ArgValue} {value : Value} :
      arg.Yields setting state value final →
      Arg.Yields setting state (.positional arg) (.positional value) final
  | parameter {state final : Interpreter} {name : String} {args : List ArgValue}
      {values : List Value} : ArgValue.YieldAll setting state args values final →
      Arg.Yields setting state (.parameter name args) (.parameter name values) final

/-- All arguments have values, from left to right. -/
inductive Arg.YieldAll (setting : Setting) :
    Interpreter → List Arg → List Given → Interpreter → Prop where
  | nil {state : Interpreter} : Arg.YieldAll setting state [] [] state
  | cons {state next final : Interpreter} {arg : Arg} {args : List Arg} {item : Given}
      {given : List Given} : arg.Yields setting state item next →
      Arg.YieldAll setting next args given final →
      Arg.YieldAll setting state (arg :: args) (item :: given) final

namespace Arg

def flag? : Arg → Option String
  | .flag name => some name
  | _ => none

def parameterName? : Arg → Option String
  | .parameter name _ => some name
  | _ => none

variable {setting : Setting} {state final : Interpreter} {args : List Arg} {given : List Given}

/-- The names of flags and parameters are those that are written. -/
theorem YieldAll.names (h : YieldAll setting state args given final) :
    given.filterMap Given.flag? = args.filterMap flag? ∧
      given.filterMap Given.parameterName? = args.filterMap parameterName? := by
  induction h with
  | nil => exact ⟨rfl, rfl⟩
  | cons hitem _ ih =>
    obtain ⟨hflags, hparameters⟩ := ih
    cases hitem <;>
      simp only [List.filterMap_cons, Given.flag?, Given.parameterName?, flag?, parameterName?,
        hflags, hparameters, and_self]

end Arg

/-! ## The evaluation of arguments -/

section Evaluation

variable {setting : Setting} {state final : Interpreter} (frames : List Frame)

theorem Expr.Yields.comesTo {expr : Expr} {value : Value}
    (h : expr.Yields setting state value final) :
    Machine.ComesTo setting ⟨.eval expr, frames, state⟩ ⟨.value value, frames, final⟩ :=
  Machine.ComesTo.onto h rfl frames

variable (word : String) (line : Nat) (map : CommandMap) (rest : List Arg)

theorem ArgValue.Yields.comesTo {arg : ArgValue} {value : Value}
    (h : arg.Yields setting state value final) (name : String) (before : List Value)
    (more : List ArgValue) :
    Machine.ComesTo setting
      ⟨.gather ⟨word, line, map, some ⟨name, before, arg :: more⟩, rest⟩, frames, state⟩
      ⟨.gather ⟨word, line, map, some ⟨name, before ++ [value], more⟩, rest⟩, frames, final⟩ := by
  cases h with
  | word text => exact .of_step (.refl _)
  | expr hexpr => exact .of_step ((hexpr.comesTo _).trans (.of_step (.refl _)))

/-- The values of a parameter are collected one after the other. -/
theorem ArgValue.YieldAll.comesTo {args : List ArgValue} {values : List Value}
    (h : ArgValue.YieldAll setting state args values final) (name : String)
    (before : List Value) :
    Machine.ComesTo setting
      ⟨.gather ⟨word, line, map, some ⟨name, before, args⟩, rest⟩, frames, state⟩
      ⟨.gather ⟨word, line, map, some ⟨name, before ++ values, []⟩, rest⟩, frames, final⟩ := by
  induction h generalizing before with
  | nil =>
    rw [List.append_nil]
    exact .refl _
  | @cons state next final arg args value values harg _ ih =>
    rw [List.append_cons]
    exact (harg.comesTo frames word line map rest name before args).trans (ih (before ++ [value]))

theorem Arg.Yields.comesTo {arg : Arg} {item : Given} (h : arg.Yields setting state item final) :
    Machine.ComesTo setting ⟨.gather ⟨word, line, map, none, arg :: rest⟩, frames, state⟩
      ⟨.gather ⟨word, line, map.add item, none, rest⟩, frames, final⟩ := by
  cases h with
  | flag name => exact .of_step (.refl _)
  | positional hvalue =>
    cases hvalue with
    | word text => exact .of_step (.refl _)
    | expr hexpr => exact .of_step ((hexpr.comesTo _).trans (.of_step (.refl _)))
  | parameter hvalues =>
    refine .of_step ((hvalues.comesTo frames word line map rest _ []).trans ?_)
    exact .of_step (.refl _)

theorem Arg.YieldAll.comesTo {args : List Arg} {given : List Given}
    (h : Arg.YieldAll setting state args given final) :
    Machine.ComesTo setting ⟨.gather ⟨word, line, map, none, args⟩, frames, state⟩
      ⟨.gather ⟨word, line, given.foldl CommandMap.add map, none, []⟩, frames, final⟩ := by
  induction h generalizing map with
  | nil => exact .refl _
  | cons hitem _ ih => exact (hitem.comesTo frames word line map _).trans (ih _)

end Evaluation

/-! ## The delivered map -/

open CommandMap (flagsKey argumentsKey)

/-- **The map of a command separates what the user wrote.** If all arguments of a command
have values, the command is delivered to the modules that accept it, with one map. Whatever
the names are, the map holds under each key what was added under it. Unless a parameter has
the name of the key for flags, the flags of the map are the written ones, in order; likewise
for positional values; and any other parameter has a key of its own, with the values that it
was given. -/
theorem Machine.delivered_map {setting : Setting} {state final : Interpreter} {args : List Arg}
    {given : List Given} (h : Arg.YieldAll setting state args given final) (word : String)
    (line : Nat) (frames : List Frame) :
    ∃ map : CommandMap,
      ComesTo setting ⟨.exec (.command (.deliver word args line)), frames, state⟩
        ⟨.done, frames, { final with
          effects := final.effects ++ ((final.registry.deliver word map).map .delivered).toArray }⟩ ∧
      (∀ key, (map.get? key).getD [] = given.flatMap (·.under key)) ∧
      (flagsKey ∉ args.filterMap Arg.parameterName? →
        map.flags = (args.filterMap Arg.flag?).map Value.string ∧
        ∀ flag, map.hasFlag flag = true ↔ flag ∈ args.filterMap Arg.flag?) ∧
      (argumentsKey ∉ args.filterMap Arg.parameterName? →
        map.arguments = given.filterMap Given.positional?) ∧
      ∀ name ∈ args.filterMap Arg.parameterName?, name ≠ flagsKey → name ≠ argumentsKey →
        map.get? name = some (given.flatMap (Given.valuesOf name)) := by
  obtain ⟨hflags, hparameters⟩ := h.names
  rw [← hflags, ← hparameters]
  refine ⟨.ofGiven given, ?_, fun key => ?_, fun hkey => ?_, CommandMap.arguments_ofGiven,
    fun name => CommandMap.parameter_ofGiven⟩
  · refine .of_step ((h.comesTo frames word line .empty).trans (.of_step ?_))
    exact .refl _
  · exact CommandMap.getD_ofGiven given key
  · exact ⟨CommandMap.flags_ofGiven hkey, CommandMap.hasFlag_ofGiven hkey⟩

/-- A flag, a bare word, and a parameter that is written twice. -/
theorem Machine.delivered_map_of_twice :
    let setting : Setting := ⟨.resolved, some 1, fun _ _ _ => .ok .null⟩
    let state := Interpreter.initial setting Registry.empty .unlimited
    let args : List Arg :=
      [.flag "a", .parameter "with" [.expr (.literal (.bool true) 1), .word "b"],
        .positional (.word "flask"), .parameter "with" [.word "d"]]
    let given : List Given :=
      [.flag "a", .parameter "with" [.bool true, .string "b"], .positional (.string "flask"),
        .parameter "with" [.string "d"]]
    Arg.YieldAll setting state args given state ∧ ∃ map : CommandMap,
      ComesTo setting ⟨.exec (.command (.deliver "open" args 1)), [], state⟩
        ⟨.done, [], { state with
          effects := state.effects ++ ((state.registry.deliver "open" map).map .delivered).toArray }⟩ ∧
      (∀ key, (map.get? key).getD [] = given.flatMap (·.under key)) ∧
      (flagsKey ∉ args.filterMap Arg.parameterName? →
        map.flags = (args.filterMap Arg.flag?).map Value.string ∧
        ∀ flag, map.hasFlag flag = true ↔ flag ∈ args.filterMap Arg.flag?) ∧
      (argumentsKey ∉ args.filterMap Arg.parameterName? →
        map.arguments = given.filterMap Given.positional?) ∧
      ∀ name ∈ args.filterMap Arg.parameterName?, name ≠ flagsKey → name ≠ argumentsKey →
        map.get? name = some (given.flatMap (Given.valuesOf name)) := by
  intro setting state args given
  have hvalues : Arg.YieldAll setting state args given state :=
    .cons (.flag "a") (.cons (.parameter (.cons (.expr ⟨1, rfl⟩) (.cons (.word "b") .nil)))
      (.cons (.positional (.word "flask")) (.cons (.parameter (.cons (.word "d") .nil)) .nil)))
  exact ⟨hvalues, delivered_map hvalues "open" 1 []⟩

/-- **A parameter that is named as the key for flags.** Its values count as flags of the
command, and it has no key of its own. -/
theorem parameter_named_flags :
    let setting : Setting := ⟨.resolved, some 1, fun _ _ _ => .ok .null⟩
    let state := Interpreter.initial setting Registry.empty .unlimited
    let args : List Arg := [.flag "a", .parameter "flags" [.word "b"]]
    ((parse .script (scan .builtin "open -a --flags b;").tokens 0).program matches
        .ok [.command (.deliver "open" [.flag "a", .parameter "flags" [.word "b"]] 1)]) = true ∧
      ∃ map : CommandMap,
        Machine.ComesTo setting ⟨.exec (.command (.deliver "open" args 1)), [], state⟩
          ⟨.gather ⟨"open", 1, map, none, []⟩, [], state⟩ ∧
        map.flags = [.string "a", .string "b"] ∧ args.filterMap Arg.flag? = ["a"] ∧
        map.hasFlag "b" = true ∧ map.keys = [flagsKey, argumentsKey] := by
  refine ⟨by decide +kernel, _, ⟨5, rfl⟩, rfl, rfl, by decide +kernel, rfl⟩

end CommandScript
