import CommandScript.Proofs.Grammar.Nesting
import CommandScript.Proofs.Grammar.Shadowing

/-!
# What the limit of nesting does

The limit does not change what is read within it. With fewer levels a rule does the same as
with more, until something nests too deep; then this is the fault that stops it, or that is
recorded and stays recorded.

* `Rule.TooDeep`: a run with this fault.
* `Rule.Caps`: a rule does the same as another one, or it ends too deep.
* `shadows_nested`: so do the rules with fewer levels.
-/

namespace CommandScript.Grammar

open Rule

/-- The fault that something nests too deep, on any line. -/
def NestsTooDeep (fault : Located ParseFault) : Prop := fault.cause = .tooDeeplyNested

namespace Rule

variable {α : Type}

/-- Something has nested too deep: this has stopped the rule, or it was recorded. -/
def TooDeep (ended : Except (Located ParseFault) α × Cursor) : Prop :=
  ∃ line, ended.1 = .error ⟨.tooDeeplyNested, line⟩ ∨ ⟨.tooDeeplyNested, line⟩ ∈ ended.2.faults

/-- The rule does the same as a wider one, unless something nests too deep for it. -/
def Caps (rule wider : Rule α) : Prop :=
  ∀ cursor, rule.run cursor = wider.run cursor ∨ TooDeep (rule.run cursor)

theorem tooDeep_of_meets {ended : Except (Located ParseFault) α × Cursor}
    (h : Meets NestsTooDeep ended) : TooDeep ended := by
  obtain ⟨⟨cause, line⟩, hcause, hended⟩ := h
  obtain rfl : cause = .tooDeeplyNested := hcause
  exact ⟨line, hended⟩

theorem Shadows.caps {rule wider : Rule α} (h : rule.Shadows NestsTooDeep wider) :
    rule.Caps wider :=
  fun cursor => (h cursor).imp_right tooDeep_of_meets

theorem shadows_tooDeep (wider : Rule α) : (tooDeep : Rule α).Shadows NestsTooDeep wider :=
  fun cursor => .inr ⟨⟨.tooDeeplyNested, cursor.peek.line⟩, rfl, .inl rfl⟩

end Rule

/-- With fewer levels the rules do the same, unless something nests too deep for them. -/
theorem shadows_nested (mode : InputMode) {levels more : Nat} (hle : levels ≤ more) :
    (nested mode levels).Shadows NestsTooDeep (nested mode more) := by
  induction levels generalizing more with
  | zero => exact ⟨shadows_tooDeep _, shadows_tooDeep _, shadows_tooDeep _, shadows_tooDeep _⟩
  | succ levels ih =>
    obtain ⟨more, rfl⟩ := Nat.exists_eq_succ_of_ne_zero (Nat.ne_zero_of_lt hle)
    have h := ih (Nat.le_of_succ_le_succ hle)
    exact ⟨shadows_assignment h.expression h.operand, shadows_unary h.expression h.operand,
      shadows_statement h (shadows_refl _), shadows_blockBody h⟩

end CommandScript.Grammar
