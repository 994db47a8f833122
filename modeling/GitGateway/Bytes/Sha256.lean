/-!
# SHA-256

The hash that names a public key: blocks of sixty-four bytes are folded into eight words.
-/

namespace GitGateway.Bytes.Sha256

/-- The round constants. -/
def roundConstants : Array UInt32 := #[
  0x428a2f98, 0x71374491, 0xb5c0fbcf, 0xe9b5dba5, 0x3956c25b, 0x59f111f1, 0x923f82a4, 0xab1c5ed5,
  0xd807aa98, 0x12835b01, 0x243185be, 0x550c7dc3, 0x72be5d74, 0x80deb1fe, 0x9bdc06a7, 0xc19bf174,
  0xe49b69c1, 0xefbe4786, 0x0fc19dc6, 0x240ca1cc, 0x2de92c6f, 0x4a7484aa, 0x5cb0a9dc, 0x76f988da,
  0x983e5152, 0xa831c66d, 0xb00327c8, 0xbf597fc7, 0xc6e00bf3, 0xd5a79147, 0x06ca6351, 0x14292967,
  0x27b70a85, 0x2e1b2138, 0x4d2c6dfc, 0x53380d13, 0x650a7354, 0x766a0abb, 0x81c2c92e, 0x92722c85,
  0xa2bfe8a1, 0xa81a664b, 0xc24b8b70, 0xc76c51a3, 0xd192e819, 0xd6990624, 0xf40e3585, 0x106aa070,
  0x19a4c116, 0x1e376c08, 0x2748774c, 0x34b0bcb5, 0x391c0cb3, 0x4ed8aa4a, 0x5b9cca4f, 0x682e6ff3,
  0x748f82ee, 0x78a5636f, 0x84c87814, 0x8cc70208, 0x90befffa, 0xa4506ceb, 0xbef9a3f7, 0xc67178f2]

/-- The eight working words. -/
structure State where
  a : UInt32
  b : UInt32
  c : UInt32
  d : UInt32
  e : UInt32
  f : UInt32
  g : UInt32
  h : UInt32
deriving DecidableEq, Repr

/-- The words before the first block. -/
def State.initial : State :=
  ⟨0x6a09e667, 0xbb67ae85, 0x3c6ef372, 0xa54ff53a, 0x510e527f, 0x9b05688c, 0x1f83d9ab, 0x5be0cd19⟩

/-- Word-wise sum. -/
def State.add (s t : State) : State :=
  ⟨s.a + t.a, s.b + t.b, s.c + t.c, s.d + t.d, s.e + t.e, s.f + t.f, s.g + t.g, s.h + t.h⟩

/-- Rotation to the right. -/
def rotate (w : UInt32) (n : UInt32) : UInt32 := (w >>> n) ||| (w <<< (32 - n))

/-- One round with message word `w` and constant `k`. -/
def round (s : State) (w k : UInt32) : State :=
  let t₁ := s.h + (rotate s.e 6 ^^^ rotate s.e 11 ^^^ rotate s.e 25) +
    ((s.e &&& s.f) ^^^ (~~~s.e &&& s.g)) + k + w
  let t₂ := (rotate s.a 2 ^^^ rotate s.a 13 ^^^ rotate s.a 22) +
    ((s.a &&& s.b) ^^^ (s.a &&& s.c) ^^^ (s.b &&& s.c))
  ⟨t₁ + t₂, s.a, s.b, s.c, s.d + t₁, s.e, s.f, s.g⟩

/-- The message word at position `i`, at least sixteen, from the words before it. -/
def nextWord (ws : Array UInt32) (i : Nat) : UInt32 :=
  let x := ws[i - 15]!
  let y := ws[i - 2]!
  ws[i - 16]! + (rotate x 7 ^^^ rotate x 18 ^^^ (x >>> 3)) + ws[i - 7]! +
    (rotate y 17 ^^^ rotate y 19 ^^^ (y >>> 10))

/-- The word in big-endian order at byte `i`. -/
def wordAt (bytes : ByteArray) (i : Nat) : UInt32 :=
  (bytes.get! i).toUInt32 <<< 24 ||| (bytes.get! (i + 1)).toUInt32 <<< 16 |||
    (bytes.get! (i + 2)).toUInt32 <<< 8 ||| (bytes.get! (i + 3)).toUInt32

/-- The sixty-four message words of the block at byte `start`. -/
def schedule (bytes : ByteArray) (start : Nat) : Array UInt32 :=
  let first := (List.range 16).foldl (fun ws i => ws.push (wordAt bytes (start + 4 * i)))
    (Array.mkEmpty 64)
  (List.range 48).foldl (fun ws i => ws.push (nextWord ws (i + 16))) first

/-- Folds the block at byte `start` into the state. -/
def block (bytes : ByteArray) (s : State) (start : Nat) : State :=
  let ws := schedule bytes start
  s.add ((List.range 64).foldl (fun s i => round s ws[i]! roundConstants[i]!) s)

/-- Big-endian bytes of a number, `n` of them. -/
def bigEndian (n value : Nat) : List UInt8 :=
  (List.range n).map fun i => UInt8.ofNat (value >>> (8 * (n - 1 - i)))

/-- The message with a one bit, zeros up to eight bytes before a block's end, and its bit length. -/
def padded (message : ByteArray) : ByteArray :=
  let n := message.size
  let zeros := (119 - n % 64) % 64
  message ++ ⟨(0x80 :: List.replicate zeros 0 ++ bigEndian 8 (8 * n)).toArray⟩

/-- The state after the whole message. -/
def digestState (message : ByteArray) : State :=
  let bytes := padded message
  (List.range (bytes.size / 64)).foldl (fun s i => block bytes s (64 * i)) .initial

/-- The thirty-two bytes of the hash. -/
def digest (message : List UInt8) : List UInt8 :=
  let s := digestState ⟨message.toArray⟩
  [s.a, s.b, s.c, s.d, s.e, s.f, s.g, s.h].flatMap fun w => bigEndian 4 w.toNat

end GitGateway.Bytes.Sha256
