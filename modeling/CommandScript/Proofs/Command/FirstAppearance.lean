import Mathlib.Data.List.Induction

/-!
# Names in the order of their first appearance

Stores of entries under names look a name up and add it at the end if it is new. So they hold
each name once, in the order in which the names first appeared.

* `withName`: what one step does to the names.
* `nodup_eraseDups`, `eraseDups_concat`: a list without its repeats, and one name more.
* `names_foldl`: the names of a store after some steps.
-/

namespace CommandScript

theorem nodup_eraseDups (names : List String) : names.eraseDups.Nodup := by
  cases names with
  | nil => exact List.nodup_nil
  | cons name rest =>
    rw [List.eraseDups_cons, List.nodup_cons]
    constructor
    · simp
    · exact nodup_eraseDups (rest.filter fun other => !other == name)
termination_by names.length
decreasing_by exact Nat.lt_succ_of_le (List.length_filter_le _ _)

theorem eraseDups_of_nodup {names : List String} (h : names.Nodup) : names.eraseDups = names := by
  induction names with
  | nil => rfl
  | cons name rest ih =>
    obtain ⟨hname, hrest⟩ := List.nodup_cons.mp h
    have hothers : (rest.filter fun other => !other == name) = rest := by
      rw [List.filter_eq_self]
      intro other hother
      simpa using fun heq : other = name => hname (heq ▸ hother)
    rw [List.eraseDups_cons, hothers, ih hrest]

/-- The names with one more at the end, unless it has appeared before. -/
def withName (names : List String) (name : String) : List String :=
  if name ∈ names then names else names ++ [name]

theorem withName_nil (name : String) : withName [] name = [name] :=
  if_neg List.not_mem_nil

theorem withName_cons_self (name : String) (rest : List String) :
    withName (name :: rest) name = name :: rest :=
  if_pos List.mem_cons_self

theorem withName_cons_of_ne {name other : String} (h : name ≠ other) (rest : List String) :
    withName (other :: rest) name = other :: withName rest name := by
  unfold withName
  by_cases hrest : name ∈ rest
  · rw [if_pos hrest, if_pos (List.mem_cons_of_mem other hrest)]
  · rw [if_neg hrest, if_neg (List.not_mem_cons_of_ne_of_not_mem h hrest), List.cons_append]

theorem eraseDups_concat (names : List String) (name : String) :
    (names ++ [name]).eraseDups = withName names.eraseDups name := by
  simp only [withName, List.mem_eraseDups, List.eraseDups_append]
  by_cases h : name ∈ names
  · have hold : [name].removeAll names = [] := by simp [List.cons_removeAll, h]
    rw [hold, if_pos h, List.eraseDups_nil, List.append_nil]
  · have hnew : [name].removeAll names = [name] := by simp [List.cons_removeAll, h]
    rw [hnew, if_neg h]
    rfl

/-- If every step adds a name in this way, a store holds each name once, in the order of first
appearance. -/
theorem names_foldl {σ α : Type} {names : σ → List String} {name : α → String}
    {step : σ → α → σ}
    (hstep : ∀ store item, names (step store item) = withName (names store) (name item))
    {store : σ} (hstore : (names store).Nodup) (items : List α) :
    names (items.foldl step store) = (names store ++ items.map name).eraseDups := by
  induction items using List.reverseRecOn with
  | nil => simpa using (eraseDups_of_nodup hstore).symm
  | append_singleton items item ih =>
    rw [List.foldl_append, List.foldl_cons, List.foldl_nil, hstep, ih, List.map_append,
      ← List.append_assoc, List.map_singleton, eraseDups_concat]

end CommandScript
