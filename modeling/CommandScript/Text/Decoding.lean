/-!
# Decoding output

Bytes of output are decoded as UTF-8. When a limit cuts the output off, its last character
may be incomplete; it is shown as a replacement character.

* `decode`: the text of bytes whose last character may be incomplete.
-/

namespace CommandScript.Text

/-- The text of all bytes but the last `cut`, if that is well-formed. -/
def decodeWithout (bytes : ByteArray) (cut : Nat) : Option String :=
  if cut ≤ bytes.size then String.fromUTF8? (bytes.extract 0 (bytes.size - cut)) else none

def decode (bytes : ByteArray) : String :=
  match decodeWithout bytes 0 with
  | some text => text
  | none => (([1, 2, 3].findSome? (decodeWithout bytes)).getD "").push '\ufffd'

end CommandScript.Text
