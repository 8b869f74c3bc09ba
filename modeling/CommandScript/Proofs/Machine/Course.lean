import CommandScript.Machine.Run

/-!
# The course of a machine

A machine at rest stays as it is, so the course of a machine can be followed through any
number of steps. A run with a budget looks at the machine after that many steps.

* `Machine.after`: the machine after some steps.
* `Machine.run_eq_ite`: a run succeeds if the machine has come to rest within the budget.
-/

namespace CommandScript.Machine

/-- The machine after some number of steps. -/
def after (setting : Setting) : Nat → Machine → Machine
  | 0, machine => machine
  | n + 1, machine => after setting n (machine.step setting)

theorem after_succ (setting : Setting) (n : Nat) (machine : Machine) :
    machine.after setting (n + 1) = (machine.after setting n).step setting := by
  induction n generalizing machine with
  | zero => rfl
  | succ n ih => exact ih (machine.step setting)

theorem after_add (setting : Setting) (n k : Nat) (machine : Machine) :
    machine.after setting (n + k) = (machine.after setting n).after setting k := by
  induction k with
  | zero => rfl
  | succ k ih => rw [← Nat.add_assoc, after_succ, ih, after_succ]

theorem step_of_atRest {setting : Setting} {machine : Machine} (h : machine.atRest = true) :
    machine.step setting = machine := by
  obtain ⟨control, frames, state⟩ := machine
  cases frames with
  | nil => cases control <;> first | rfl | cases h
  | cons frame rest => cases control <;> cases h

theorem after_of_atRest {setting : Setting} {machine : Machine} (h : machine.atRest = true)
    (n : Nat) : machine.after setting n = machine := by
  induction n with
  | zero => rfl
  | succ n ih => rw [after_succ, ih, step_of_atRest h]

theorem run_eq_ite (setting : Setting) (budget : Nat) (machine : Machine) :
    machine.run setting budget =
      if (machine.after setting budget).atRest then some (machine.after setting budget)
      else none := by
  induction budget generalizing machine with
  | zero => rfl
  | succ budget ih =>
    rw [run]
    split
    · rename_i hrest
      rw [after_of_atRest hrest, if_pos hrest]
    · exact ih (machine.step setting)

theorem run_eq_some_iff {setting : Setting} {budget : Nat} {machine final : Machine} :
    machine.run setting budget = some final ↔
      machine.after setting budget = final ∧ final.atRest = true := by
  rw [run_eq_ite]
  split
  · rename_i h
    constructor
    · intro hfinal
      obtain rfl := Option.some.inj hfinal
      exact ⟨rfl, h⟩
    · rintro ⟨rfl, -⟩
      rfl
  · rename_i h
    constructor
    · intro hnone
      cases hnone
    · rintro ⟨rfl, hrest⟩
      exact absurd hrest h

/-- A property that every step preserves holds along the whole course. -/
theorem after_induction {setting : Setting} {P : Machine → Prop}
    (hstep : ∀ machine, P machine → P (machine.step setting)) {machine : Machine}
    (h : P machine) (n : Nat) : P (machine.after setting n) := by
  induction n generalizing machine with
  | zero => exact h
  | succ n ih => exact ih (hstep machine h)

end CommandScript.Machine
