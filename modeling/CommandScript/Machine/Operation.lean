import CommandScript.Fault
import CommandScript.Value

/-!
# Operations on values

What operators do to the values of their operands, once these are known. Numbers follow
binary64 arithmetic: division by zero gives an infinity or a NaN, and every ordering with a
NaN is false.

* `UnaryOp.apply`, `BinaryOp.apply`: the value of an operation, or why there is none.
* `LogicalOp.decides`: whether the left operand alone is the answer.
-/

namespace CommandScript

def UnaryOp.apply (op : UnaryOp) (operand : Value) : Except RuntimeFault Value :=
  match op, operand with
  | .not, operand => .ok (.bool (!operand.truthy))
  | .negate, .number value => .ok (.number (-value))
  | .negate, _ => .error (.operandMustBeNumber op.text)

namespace BinaryOp

/-- Sums and concatenations. -/
def sum : Value → Value → Except RuntimeFault Value
  | .number a, .number b => .ok (.number (a + b))
  | .string a, .string b => .ok (.string (a ++ b))
  | _, _ => .error .operandsMustBeNumbersOrStrings

/-- The operations on two numbers; equality and addition are defined on all values. -/
def onNumbers (op : BinaryOp) (a b : Float) : Value :=
  match op with
  | .add => .number (a + b)
  | .sub => .number (a - b)
  | .mul => .number (a * b)
  | .div => .number (a / b)
  | .less => .bool (a < b)
  | .lessEqual => .bool (a ≤ b)
  | .greater => .bool (b < a)
  | .greaterEqual => .bool (b ≤ a)
  | .equal => .bool (Value.sameNumber a b)
  | .notEqual => .bool (!Value.sameNumber a b)

def apply (op : BinaryOp) (left right : Value) : Except RuntimeFault Value :=
  match op with
  | .equal => .ok (.bool (left.same right))
  | .notEqual => .ok (.bool (!left.same right))
  | .add => sum left right
  | op =>
    match left, right with
    | .number a, .number b => .ok (op.onNumbers a b)
    | _, _ => .error (.operandsMustBeNumbers op.text)

end BinaryOp

def LogicalOp.decides (op : LogicalOp) (left : Value) : Bool :=
  match op with
  | .or => left.truthy
  | .and => !left.truthy

end CommandScript
