import GitGateway.Bytes.Sha256

/-!
# Length-prefixed bytes

How keys are written for the transport: numbers in four bytes, byte sequences with their length in
front, and whole numbers as the shortest sequence whose first bit is zero.
-/

namespace GitGateway.Bytes

/-- Something that is read from the front of a byte sequence, or cannot be. -/
abbrev Reader := StateT (List UInt8) Option

namespace Reader

/-- Reads `n` bytes. -/
def bytes (n : Nat) : Reader (List UInt8) := fun bs =>
  if bs.length < n then none else some (bs.take n, bs.drop n)

/-- Reads what must stand there. -/
def expect (data : List UInt8) : Reader Unit := do
  guard ((← bytes data.length) == data)

/-- Reads only if a condition holds. -/
def ensure (b : Bool) : Reader Unit := guard b

/-- Whether nothing is left. -/
def atEnd : Reader Bool := return (← get).isEmpty

/-- Reads a whole byte sequence. -/
def whole {α : Type} (r : Reader α) (bs : List UInt8) : Option α :=
  match r bs with
  | some (a, []) => some a
  | _ => none

/-- Reads part of a byte sequence, which must hold nothing else. -/
def inside {α : Type} (r : Reader α) (bs : List UInt8) : Reader α := fun rest =>
  (whole r bs).map fun a => (a, rest)

end Reader

/-- The number that bytes stand for, the most significant first. -/
def ofBigEndian (bytes : List UInt8) : Nat := bytes.foldl (fun n b => n * 256 + b.toNat) 0

namespace Wire

/-- Reads a number in four bytes. -/
def number : Reader Nat := return ofBigEndian (← Reader.bytes 4)

/-- Reads a byte sequence. -/
def string : Reader (List UInt8) := do Reader.bytes (← number)

/-- Reads a whole number that is not negative, in its shortest form. -/
def integer : Reader Nat := do
  let bytes ← string
  match bytes with
  | 0 :: b :: _ => Reader.ensure (128 ≤ b)
  | b :: _ => Reader.ensure (0 < b && b < 128)
  | [] => pure ()
  return ofBigEndian bytes

/-- A byte sequence with its length. -/
def encode (bytes : List UInt8) : List UInt8 := Sha256.bigEndian 4 bytes.length ++ bytes

/-- How many bytes a number needs. -/
def byteCount (n : Nat) : Nat := if n = 0 then 0 else n.log2 / 8 + 1

/-- A whole number with its length. -/
def encodeInteger (n : Nat) : List UInt8 :=
  let bytes := Sha256.bigEndian (byteCount n) n
  encode (if bytes.headD 0 < 128 then bytes else 0 :: bytes)

end Wire

end GitGateway.Bytes
