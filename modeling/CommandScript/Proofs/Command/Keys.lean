import CommandScript.Proofs.Command.FirstAppearance
import CommandScript.Proofs.Command.Given

/-!
# The keys of a command map

A map is filled call by call: a flag is recorded, a positional value is recorded, or values
are added for a parameter. A call looks its key up and adds a new key at the end, so every key
stands once. The two reserved keys stand first, and the other keys follow in the order in which
parameters first had their names, even if they brought no values.

With its keys in this order a map has nothing else but what was added under each of them. How
calls with different keys are interleaved leaves no further trace.

* `CommandMap.push`, `CommandMap.pushed`: a call, and the map after some calls.
* `CommandMap.keys_append`, `CommandMap.keys_pushed`: the keys after a step and after a run.
* `CommandMap.entries_eq`: a map in terms of its keys.
* `CommandMap.pushed_represents`: what calls put into a map, and when they fill equal maps.
-/

namespace CommandScript

namespace CommandMap

/-- One call on a map. -/
def push (map : CommandMap) : Given → CommandMap
  | .flag name => map.pushFlag name
  | .positional value => map.pushArgument value
  | .parameter name values => map.extendParameter name values

/-- A new map after some calls. -/
def pushed (calls : List Given) : CommandMap := calls.foldl push empty

def reservedKeys : List String := [flagsKey, argumentsKey]

/-- The names of parameters that are no reserved keys, each where it first appears. -/
def parameterKeys (calls : List Given) : List String :=
  ((calls.filterMap Given.parameterName?).filter (· ∉ reservedKeys)).eraseDups

theorem push_eq_add : push = add := by
  funext map call
  cases call <;> rfl

/-! ## The keys -/

theorem map_fst_appendEntry (key : String) (values : List Value)
    (entries : List (String × List Value)) :
    (appendEntry key values entries).map Prod.fst = withName (entries.map Prod.fst) key := by
  induction entries with
  | nil => exact (withName_nil key).symm
  | cons entry rest ih =>
    obtain ⟨name, held⟩ := entry
    unfold appendEntry
    by_cases h : key = name
    · subst h
      rw [if_pos rfl, List.map_cons, List.map_cons, withName_cons_self]
    · rw [if_neg h, List.map_cons, ih, List.map_cons, withName_cons_of_ne h]

theorem keys_append (map : CommandMap) (key : String) (values : List Value) :
    (map.append key values).keys = withName map.keys key :=
  map_fst_appendEntry key values map.entries

/-- Without the reserved keys, the keys of the calls are the names of their parameters. -/
theorem filter_keys (calls : List Given) :
    (calls.map Given.key).filter (· ∉ reservedKeys) =
      (calls.filterMap Given.parameterName?).filter (· ∉ reservedKeys) := by
  induction calls with
  | nil => rfl
  | cons call rest ih =>
    cases call with
    | flag name =>
      rw [List.map_cons, Given.key, List.filter_cons_of_neg (by decide), ih]
      rfl
    | positional value =>
      rw [List.map_cons, Given.key, List.filter_cons_of_neg (by decide), ih]
      rfl
    | parameter name values =>
      simp only [List.map_cons, Given.key, List.filterMap_cons, Given.parameterName?,
        List.filter_cons, ih]

theorem keys_pushed_eq_eraseDups (calls : List Given) :
    (pushed calls).keys = (reservedKeys ++ calls.map Given.key).eraseDups := by
  rw [pushed, push_eq_add]
  exact names_foldl (fun map call => keys_append map call.key call.values) (by decide) calls

theorem keys_pushed (calls : List Given) :
    (pushed calls).keys = reservedKeys ++ parameterKeys calls := by
  have hreserved : reservedKeys.eraseDups = reservedKeys := eraseDups_of_nodup (by decide)
  have hrest : (calls.map Given.key).removeAll reservedKeys =
      (calls.map Given.key).filter (· ∉ reservedKeys) := by
    simp only [List.removeAll, List.elem_eq_contains, List.contains_eq_mem, decide_not]
  rw [keys_pushed_eq_eraseDups, List.eraseDups_append, hreserved, hrest, filter_keys]
  rfl

theorem nodup_keys (calls : List Given) : (pushed calls).keys.Nodup := by
  rw [keys_pushed_eq_eraseDups]
  exact nodup_eraseDups _

/-! ## What the keys hold -/

/-- A map whose keys are distinct is determined by its keys and by what they hold. -/
theorem entries_eq {map : CommandMap} (h : map.keys.Nodup) :
    map.entries = map.keys.map fun key => (key, (map.get? key).getD []) := by
  obtain ⟨entries⟩ := map
  simp only [keys, get?] at h ⊢
  induction entries with
  | nil => rfl
  | cons entry rest ih =>
    obtain ⟨name, held⟩ := entry
    obtain ⟨hname, hrest⟩ := List.nodup_cons.mp h
    rw [List.map_cons, List.map_cons, List.lookup_cons_self]
    refine congrArg₂ List.cons rfl ((ih hrest).trans (List.map_congr_left fun key hkey => ?_))
    have hne : key ≠ name := fun heq => hname (heq ▸ hkey)
    rw [List.lookup_cons, beq_false_of_ne hne]

theorem get?_pushed (calls : List Given) (key : String) :
    (pushed calls).get? key =
      if key ∈ (pushed calls).keys then some (calls.flatMap (·.under key)) else none := by
  have hkeys : key ∈ (pushed calls).keys ↔
      key = flagsKey ∨ key = argumentsKey ∨ ∃ call ∈ calls, call.key = key := by
    rw [keys_pushed_eq_eraseDups, List.mem_eraseDups]
    simp [reservedKeys]
  rw [if_congr hkeys rfl rfl, pushed, push_eq_add]
  exact get?_ofGiven calls key

/-- A key holds nothing exactly as long as nothing was added under it. -/
theorem flatMap_under_of_notMem {calls : List Given} {key : String}
    (h : key ∉ (pushed calls).keys) : calls.flatMap (·.under key) = [] := by
  have hget := get?_pushed calls key
  rw [if_neg h, pushed, push_eq_add] at hget
  have hvalues := getD_ofGiven calls key
  rw [ofGiven, hget] at hvalues
  exact hvalues.symm

theorem sameEntries_map_iff {keys others : List String} {held given : String → List Value} :
    sameEntries (keys.map fun key => (key, held key)) (others.map fun key => (key, given key)) =
        true ↔
      keys = others ∧ ∀ key ∈ keys, sameValues (held key) (given key) = true := by
  induction keys generalizing others with
  | nil => cases others <;> simp [sameEntries]
  | cons key rest ih =>
    cases others with
    | nil => simp [sameEntries]
    | cons other others =>
      simp only [List.map_cons, sameEntries, Bool.and_eq_true, decide_eq_true_eq, ih,
        List.cons.injEq, List.forall_mem_cons]
      constructor
      · rintro ⟨⟨rfl, hvalues⟩, rfl, hrest⟩
        exact ⟨⟨rfl, rfl⟩, hvalues, hrest⟩
      · rintro ⟨⟨rfl, rfl⟩, hvalues, hrest⟩
        exact ⟨⟨rfl, hvalues⟩, rfl, hrest⟩

theorem same_pushed_iff (calls others : List Given) :
    (pushed calls).same (pushed others) = true ↔
      parameterKeys calls = parameterKeys others ∧
        ∀ key, sameValues (calls.flatMap (·.under key)) (others.flatMap (·.under key)) = true := by
  have hentries : ∀ calls, (pushed calls).entries =
      (pushed calls).keys.map fun key => (key, calls.flatMap (·.under key)) := by
    intro calls
    refine (entries_eq (nodup_keys calls)).trans (List.map_congr_left fun key hkey => ?_)
    rw [get?_pushed, if_pos hkey, Option.getD_some]
  rw [same, hentries, hentries, sameEntries_map_iff, keys_pushed, keys_pushed,
    List.append_cancel_left_eq]
  refine and_congr_right fun hkeys => ⟨fun h key => ?_, fun h key _ => h key⟩
  by_cases hkey : key ∈ reservedKeys ++ parameterKeys calls
  · exact h key hkey
  · have hcalls : key ∉ (pushed calls).keys := keys_pushed calls ▸ hkey
    have hothers : key ∉ (pushed others).keys := keys_pushed others ▸ hkeys ▸ hkey
    rw [flatMap_under_of_notMem hcalls, flatMap_under_of_notMem hothers]
    rfl

/-- **A command map keeps its representation.** After any calls on a new map the keys are
distinct: the keys of the flags and of the positional values, and then the other parameters in
the order of their first calls. Each key holds what was added under it, one call after the
other. So two sequences of calls fill equal maps exactly when the other parameters first appear
in the same order and every key was given the same values. -/
theorem pushed_represents (calls : List Given) :
    (pushed calls).keys.Nodup ∧
      (pushed calls).keys = flagsKey :: argumentsKey :: parameterKeys calls ∧
      (∀ key, (pushed calls).get? key =
        if key ∈ (pushed calls).keys then some (calls.flatMap (·.under key)) else none) ∧
      ∀ others, (pushed calls).same (pushed others) = true ↔
        parameterKeys calls = parameterKeys others ∧
          ∀ key, sameValues (calls.flatMap (·.under key)) (others.flatMap (·.under key)) = true :=
  ⟨nodup_keys calls, keys_pushed calls, get?_pushed calls, same_pushed_iff calls⟩

/-- A parameter without values has its key, and one with the name of a reserved key has none of
its own. -/
example : (pushed [.parameter "b" [], .flag "x", .parameter "a" [.null], .parameter "flags" [],
    .parameter "b" [.bool true]]).keys = ["flags", "arguments", "b", "a"] := by
  rw [keys_pushed]
  decide

end CommandMap

end CommandScript
