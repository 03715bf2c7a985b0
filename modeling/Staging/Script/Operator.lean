import Staging.Script.Coerce

/-!
Operators on values. The logical operators are given here on two values; evaluation decides on their
right operand before it looks at it.
-/

namespace Staging.Script

/-- Whether a value makes an addition a concatenation. -/
def Value.isTextual : Value → Bool
  | string _ | array _ | object _ | date _ | raw _ | function _ => true
  | _ => false

/-- How two values compare: two texts by their characters, all else by number. -/
def Heap.order? (h : Heap) (a b : Value) : Option Ordering :=
  match a, b with
  | .string s, .string t => some (compare s t)
  | _, _ =>
    let x := h.toNumber a
    let y := h.toNumber b
    if x < y then some .lt else if x == y then some .eq else if y < x then some .gt else none

def unaryOp (h : Heap) (op : UnaryOp) (v : Value) : Value :=
  match op with
  | .neg => .number (-(h.toNumber v))
  | .plus => .number (h.toNumber v)
  | .not => .bool (!v.truthy)
  | .typeof => .string v.typeName

def binaryOp (h : Heap) (op : BinaryOp) (a b : Value) : Value :=
  match op with
  | .add =>
    if a.isTextual || b.isTextual then .string (h.display a ++ h.display b)
    else .number (h.toNumber a + h.toNumber b)
  | .sub => .number (h.toNumber a - h.toNumber b)
  | .mul => .number (h.toNumber a * h.toNumber b)
  | .div => .number (h.toNumber a / h.toNumber b)
  | .mod => .number (Number.remainder (h.toNumber a) (h.toNumber b))
  | .pow => .number (Float.pow (h.toNumber a) (h.toNumber b))
  | .eq => .bool (h.looseEquals a b)
  | .notEq => .bool (!h.looseEquals a b)
  | .strictEq => .bool (a.strictEquals b)
  | .strictNotEq => .bool (!a.strictEquals b)
  | .lt => .bool (h.order? a b == some .lt)
  | .gt => .bool (h.order? a b == some .gt)
  | .le => .bool (h.order? a b == some .lt || h.order? a b == some .eq)
  | .ge => .bool (h.order? a b == some .gt || h.order? a b == some .eq)
  | .and => if a.truthy then b else a
  | .or => if a.truthy then a else b
  | .nullish => if a.isNullish then b else a

end Staging.Script
