/-!
# Ranges of characters

Properties of characters are given by ranges of code points, first and last included, in
ascending order.

* `inRanges`: whether a character lies in one of the ranges.
* `inRanges_iff`: the same as a statement.
-/

namespace CommandScript.Text

def inRanges (ranges : List (Nat × Nat)) (c : Char) : Bool :=
  ranges.any fun range => range.1 ≤ c.toNat && c.toNat ≤ range.2

theorem inRanges_iff {ranges : List (Nat × Nat)} {c : Char} :
    inRanges ranges c = true ↔ ∃ range ∈ ranges, range.1 ≤ c.toNat ∧ c.toNat ≤ range.2 := by
  simp [inRanges]

end CommandScript.Text
