import GitGateway.Bytes.Wire

/-!
# Tagged values

The distinguished encoding in which keys are kept in files: a tag, a length in its shortest form,
and the content.
-/

namespace GitGateway.Bytes.Der

/-- Reads a length. -/
def length : Reader Nat := do
  let first := ofBigEndian (← Reader.bytes 1)
  if first < 128 then return first
  else
    Reader.ensure (128 < first && first ≤ 132)
    let n := ofBigEndian (← Reader.bytes (first - 128))
    Reader.ensure (Wire.byteCount n == first - 128 && 128 ≤ n)
    return n

/-- Reads a value: its tag and its content. -/
def value : Reader (UInt8 × List UInt8) := do
  let tag := (← Reader.bytes 1).headD 0
  return (tag, ← Reader.bytes (← length))

/-- Reads the content of a value with a certain tag. -/
def tagged (tag : UInt8) : Reader (List UInt8) := do
  let (t, content) ← value
  Reader.ensure (t == tag)
  return content

/-- Reads a value if it has a certain tag. -/
def optional (tag : UInt8) : Reader (Option (List UInt8)) := fun bs =>
  if bs.head? == some tag then (tagged tag bs).map fun (content, rest) => (some content, rest)
  else some (none, bs)

/-- Reads a whole number that is not negative. -/
def integer : Reader Nat := do
  let content ← tagged 2
  match content with
  | 0 :: b :: _ => Reader.ensure (128 ≤ b)
  | b :: _ => Reader.ensure (b < 128)
  | [] => Reader.ensure false
  return ofBigEndian content

/-- Reads a sequence of values. -/
def sequence {α : Type} (r : Reader α) : Reader α := do Reader.inside r (← tagged 48)

/-- The content of a sequence of bits that fills whole bytes. -/
def wholeBits : List UInt8 → Option (List UInt8)
  | 0 :: rest => some rest
  | _ => none

/-- A value of less than a hundred and twenty-eight bytes. -/
def encode (tag : UInt8) (content : List UInt8) : List UInt8 :=
  tag :: UInt8.ofNat content.length :: content

end GitGateway.Bytes.Der
