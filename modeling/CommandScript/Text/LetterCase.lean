/-!
# Letter case of words

Key words and command words are compared without regard to the case of the ASCII
letters. Every other character stands for itself.

* `lowered`: the text with each ASCII capital replaced by its small letter.
* `sameWord_iff`: two words are the same exactly when their lowered forms are equal.
* `lowered_lowered`: lowering twice is lowering once.
-/

namespace CommandScript.Text

def lowered (text : String) : String := String.ofList (text.toList.map Char.toLower)

/-- Equality of two words up to the case of ASCII letters. -/
def sameWord (a b : String) : Bool := lowered a == lowered b

theorem sameWord_iff {a b : String} : sameWord a b = true ↔ lowered a = lowered b := by
  simp [sameWord]

theorem toLower_toLower (c : Char) : c.toLower.toLower = c.toLower := by
  unfold Char.toLower
  split
  · rename_i h
    rw [dif_neg]
    rintro ⟨hl, hu⟩
    have hl' : 65 ≤ (c.val + 32).toNat := UInt32.le_iff_toNat_le.mp hl
    have hu' : (c.val + 32).toNat ≤ 90 := UInt32.le_iff_toNat_le.mp hu
    have h1 : 65 ≤ c.val.toNat := UInt32.le_iff_toNat_le.mp h.1
    have h2 : c.val.toNat ≤ 90 := UInt32.le_iff_toNat_le.mp h.2
    rw [UInt32.toNat_add] at hu'
    have : (32 : UInt32).toNat = 32 := rfl
    omega
  · rfl

theorem lowered_lowered (text : String) : lowered (lowered text) = lowered text := by
  have twice : Char.toLower ∘ Char.toLower = Char.toLower := funext toLower_toLower
  rw [lowered, lowered, String.toList_ofList, List.map_map, twice]

end CommandScript.Text
