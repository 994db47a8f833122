import GitGateway.Bytes.Sha512

/-!
# Signing keys on the Edwards curve

The public key that belongs to the thirty-two secret bytes of an Ed25519 key: the bytes are hashed,
the hash gives a multiplier, and the public key is that multiple of the curve's base point.  Points
are written with a common denominator, so that adding them needs no division.
-/

namespace GitGateway.Crypto.Edwards

/-- The prime of the field. -/
def prime : Nat := (1 <<< 255) - 19

/-- The constant of the curve equation `y² - x² = 1 + d x² y²`. -/
def curveConstant : Nat :=
  0x52036cee2b6ffe738cc740797779e89800700a4d4141d8ab75eb4dca135978a3

/-- `b` to the power `e` modulo `m`. -/
def powMod (b e m : Nat) : Nat :=
  if e = 0 then 1 % m
  else
    let half := powMod (b * b % m) (e / 2) m
    if e % 2 = 0 then half else b * half % m
termination_by e
decreasing_by omega

/-- The value that gives one when it is multiplied by `a`, for a prime modulus. -/
def inverseMod (a m : Nat) : Nat := powMod a (m - 2) m

/-- A point `(x / z, y / z)`. -/
structure Point where
  x : Nat
  y : Nat
  z : Nat
deriving DecidableEq, Repr

/-- The neutral point. -/
def Point.zero : Point := ⟨0, 1, 1⟩

/-- The point whose multiples are the public keys. -/
def Point.base : Point where
  x := 0x216936d3cd6e53fec0a4e231fdd6dc5c692cc7609525a7b2c9562d608f25d51a
  y := 0x6666666666666666666666666666666666666666666666666666666666666658
  z := 1

/-- The sum of two points. -/
def Point.add (p q : Point) : Point :=
  let a := p.z * q.z % prime
  let b := a * a % prime
  let c := p.x * q.x % prime
  let d := p.y * q.y % prime
  let e := curveConstant * c % prime * d % prime
  let f := b + prime - e
  let g := b + e
  let cross := (p.x + p.y) * (q.x + q.y) + 2 * prime - c - d
  ⟨a * f % prime * cross % prime, a * g % prime * (c + d) % prime, f * g % prime⟩

/-- `n` times a point. -/
def Point.times (p : Point) (n : Nat) : Point :=
  if n = 0 then .zero
  else
    let half := Point.times (p.add p) (n / 2)
    if n % 2 = 0 then half else p.add half
termination_by n
decreasing_by omega

/-- The number that bytes stand for, the least significant first. -/
def ofLittleEndian (bytes : List UInt8) : Nat := bytes.foldr (fun b n => b.toNat + 256 * n) 0

/-- The bytes of a number, `n` of them, the least significant first. -/
def toLittleEndian : Nat → Nat → List UInt8
  | 0, _ => []
  | n + 1, value => UInt8.ofNat (value % 256) :: toLittleEndian n (value / 256)

/-- The bit that every multiplier has, and none above it. -/
def topBit : Nat := 1 <<< 254

/-- The multiplier that the secret bytes give: bits are set and cleared so that it is a multiple of
eight with its highest bit in a fixed place. -/
def multiplier (secret : List UInt8) : Nat :=
  let n := ofLittleEndian ((Bytes.Sha512.digest secret).take 32)
  topBit + n % topBit / 8 * 8

/-- The bytes of a point: its second coordinate, and the parity of its first on top. -/
def Point.bytes (p : Point) : List UInt8 :=
  let inverse := inverseMod p.z prime
  let x := p.x * inverse % prime
  let y := p.y * inverse % prime
  toLittleEndian 32 (y + (x % 2) <<< 255)

/-- The public key of secret bytes. -/
def publicKey (secret : List UInt8) : List UInt8 := (Point.base.times (multiplier secret)).bytes

end GitGateway.Crypto.Edwards
