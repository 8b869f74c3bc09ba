import CommandScript.Command.Map
import Mathlib.Data.List.Basic

/-!
# What a command map holds

A command map is filled with what a command is given: flags, positional values, and
parameters with their values. Each of these adds some values under one key, and the map
holds under each key what was added to it, in order.

The keys of the flags and of the positional values are kept for them only as long as no
parameter has one of their names.

* `Given`, `CommandMap.ofGiven`: what a command is given, and its map.
* `CommandMap.get?_ofGiven`: each key holds what was added under it.
* `CommandMap.flags_ofGiven`, `hasFlag_ofGiven`, `arguments_ofGiven`,
  `parameter_ofGiven`: what is held for flags, positional values and parameters.
-/

namespace CommandScript

/-- An argument of a command with its values. -/
inductive Given where
  | flag (name : String)
  | positional (value : Value)
  | parameter (name : String) (values : List Value)

namespace Given

def key : Given → String
  | .flag _ => CommandMap.flagsKey
  | .positional _ => CommandMap.argumentsKey
  | .parameter name _ => name

def values : Given → List Value
  | .flag name => [.string name]
  | .positional value => [value]
  | .parameter _ values => values

/-- What is added under a key. -/
def under (key : String) (given : Given) : List Value :=
  if given.key = key then given.values else []

def flag? : Given → Option String
  | .flag name => some name
  | _ => none

def positional? : Given → Option Value
  | .positional value => some value
  | _ => none

def parameterName? : Given → Option String
  | .parameter name _ => some name
  | _ => none

/-- The values that a parameter of the name is given. -/
def valuesOf (name : String) : Given → List Value
  | .parameter other values => if other = name then values else []
  | _ => []

end Given

namespace CommandMap

def add (map : CommandMap) (given : Given) : CommandMap := map.append given.key given.values

/-- The map of a command that is given these arguments. -/
def ofGiven (given : List Given) : CommandMap := given.foldl add empty

section Keys

variable (given : List Given) (key : String)

theorem flatMap_under_eq_nil {given : List Given} {key : String}
    (h : ¬ ∃ item ∈ given, item.key = key) : given.flatMap (·.under key) = [] :=
  List.flatMap_eq_nil_iff.mpr fun item hitem => if_neg fun hkey => h ⟨item, hitem, hkey⟩

theorem get?_foldl_add (map : CommandMap) :
    (given.foldl add map).get? key =
      if (∃ item ∈ given, item.key = key) then
        some ((map.get? key).getD [] ++ given.flatMap (·.under key))
      else map.get? key := by
  induction given generalizing map with
  | nil => simp
  | cons item rest ih =>
    rw [List.foldl_cons, ih, add, get?_append, List.flatMap_cons, Given.under]
    by_cases hitem : item.key = key
    · subst hitem
      by_cases hrest : ∃ other ∈ rest, other.key = item.key
      · simp [hrest]
      · simp [hrest, flatMap_under_eq_nil hrest]
    · simp [hitem, Ne.symm hitem]

/-- Each key holds what was added under it, in order. -/
theorem get?_ofGiven :
    (ofGiven given).get? key =
      if key = flagsKey ∨ key = argumentsKey ∨ ∃ item ∈ given, item.key = key then
        some (given.flatMap (·.under key))
      else none := by
  have hempty : empty.get? key =
      if key = flagsKey ∨ key = argumentsKey then some [] else none := by
    by_cases hflags : key = flagsKey
    · subst hflags
      rfl
    · by_cases harguments : key = argumentsKey
      · subst harguments
        rfl
      · simp [empty, get?, hflags, harguments]
  rw [ofGiven, get?_foldl_add, hempty]
  by_cases hgiven : ∃ item ∈ given, item.key = key
  · simp only [hgiven, or_true, if_true]
    split <;> rfl
  · simp only [hgiven, or_false, if_false, flatMap_under_eq_nil hgiven]

theorem getD_ofGiven : ((ofGiven given).get? key).getD [] = given.flatMap (·.under key) := by
  rw [get?_ofGiven]
  split
  · rfl
  · rename_i hnone
    simp only [not_or] at hnone
    rw [flatMap_under_eq_nil hnone.2.2, Option.getD_none]

end Keys

/-! ## Flags, positional values and parameters -/

section Kinds

variable {given : List Given}

theorem flags_ofGiven (h : flagsKey ∉ given.filterMap Given.parameterName?) :
    (ofGiven given).flags = (given.filterMap Given.flag?).map Value.string := by
  rw [flags, get?_ofGiven, if_pos (.inl rfl), Option.getD_some, List.map_filterMap,
    List.filterMap_eq_flatMap_toList]
  refine List.flatMap_congr fun item hitem => ?_
  cases item with
  | flag name => exact if_pos rfl
  | positional value => exact if_neg (by decide : argumentsKey ≠ flagsKey)
  | parameter name values =>
    exact if_neg fun hname => h (List.mem_filterMap.mpr ⟨_, hitem, congrArg some hname⟩)

theorem hasFlag_ofGiven (h : flagsKey ∉ given.filterMap Given.parameterName?) (name : String) :
    (ofGiven given).hasFlag name = true ↔ name ∈ given.filterMap Given.flag? := by
  rw [hasFlag, flags_ofGiven h, List.any_map, List.any_eq_true]
  constructor
  · rintro ⟨flag, hflag, hsame⟩
    obtain rfl : flag = name := of_decide_eq_true hsame
    exact hflag
  · exact fun hmem => ⟨name, hmem, decide_eq_true rfl⟩

theorem arguments_ofGiven (h : argumentsKey ∉ given.filterMap Given.parameterName?) :
    (ofGiven given).arguments = given.filterMap Given.positional? := by
  rw [arguments, get?_ofGiven, if_pos (.inr (.inl rfl)), Option.getD_some,
    List.filterMap_eq_flatMap_toList]
  refine List.flatMap_congr fun item hitem => ?_
  cases item with
  | flag name => exact if_neg (by decide : flagsKey ≠ argumentsKey)
  | positional value => exact if_pos rfl
  | parameter name values =>
    exact if_neg fun hname => h (List.mem_filterMap.mpr ⟨_, hitem, congrArg some hname⟩)

/-- A parameter whose name is none of the two kept keys has a key of its own. -/
theorem parameter_ofGiven {name : String} (h : name ∈ given.filterMap Given.parameterName?)
    (hflags : name ≠ flagsKey) (harguments : name ≠ argumentsKey) :
    (ofGiven given).get? name = some (given.flatMap (Given.valuesOf name)) := by
  obtain ⟨item, hitem, hname⟩ := List.mem_filterMap.mp h
  have hkey : item.key = name := by
    cases item with
    | parameter other values => exact Option.some.inj hname
    | _ => cases hname
  have hvalues : Given.under name = Given.valuesOf name := by
    funext other
    cases other with
    | flag _ => exact if_neg (Ne.symm hflags)
    | positional _ => exact if_neg (Ne.symm harguments)
    | parameter _ _ => rfl
  rw [get?_ofGiven, if_pos (.inr (.inr ⟨item, hitem, hkey⟩)), hvalues]

end Kinds

end CommandMap

end CommandScript
