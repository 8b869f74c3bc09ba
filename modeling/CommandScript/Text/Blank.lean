/-!
# Blank text

A text is blank if it consists of white space alone. White space is every character that
Unicode gives the property `White_Space`.

* `isWhiteSpace`: the characters with that property.
* `isWhiteSpace_of_isWhitespace`: the blanks and line breaks of ASCII are among them.
-/

namespace CommandScript.Text

def isWhiteSpace (c : Char) : Bool :=
  let n := c.toNat
  (0x09 ≤ n && n ≤ 0x0d) || n = 0x20 || n = 0x85 || n = 0xa0 || n = 0x1680 ||
    (0x2000 ≤ n && n ≤ 0x200a) || n = 0x2028 || n = 0x2029 || n = 0x202f || n = 0x205f ||
    n = 0x3000

theorem isWhiteSpace_of_isWhitespace {c : Char} (h : c.isWhitespace = true) :
    isWhiteSpace c = true := by
  simp only [Char.isWhitespace, Bool.or_eq_true, decide_eq_true_eq] at h
  rcases h with ((h | h) | h) | h <;> subst h <;> decide

def isBlank (text : String) : Bool := text.toList.all isWhiteSpace

end CommandScript.Text
