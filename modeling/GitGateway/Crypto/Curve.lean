import GitGateway.Crypto.Edwards

/-!
# Signing keys on the standard prime curves

The public key that belongs to a secret number of an ECDSA key: that multiple of the curve's base
point.  The curves have the equation `y² = x³ - 3 x + b`, whose last constant is not needed to add
points.  Points are written with a common denominator.
-/

namespace GitGateway.Crypto

/-- A curve. -/
structure Curve where
  name : String
  /-- How many bytes a coordinate has. -/
  size : Nat
  /-- The prime of the field. -/
  prime : Nat
  baseX : Nat
  baseY : Nat
  /-- How many multiples the base point has. -/
  order : Nat
  /-- The number under which the curve is registered. -/
  identifier : List UInt8
deriving DecidableEq, Repr

namespace Curve

/-- A point `(x / z, y / z)`; without a denominator it is the neutral one. -/
structure Point where
  x : Int
  y : Int
  z : Int
deriving DecidableEq, Repr

/-- The neutral point. -/
def Point.zero : Point := ⟨0, 1, 0⟩

variable (c : Curve)

/-- Reduces coordinates modulo the prime. -/
def point (x y z : Int) : Point := ⟨x % c.prime, y % c.prime, z % c.prime⟩

/-- Twice a point. -/
def double (p : Point) : Point :=
  let w := 3 * (p.x * p.x - p.z * p.z) % c.prime
  let s := p.y * p.z % c.prime
  let b := p.x * p.y % c.prime * s % c.prime
  let h := (w * w - 8 * b) % c.prime
  let ys := p.y * s % c.prime
  c.point (2 * h * s) (w * (4 * b - h) - 8 * ys * ys) (8 * s * s * s)

/-- The sum of two points. -/
def add (p q : Point) : Point :=
  if p.z = 0 then q
  else if q.z = 0 then p
  else
    let u := (q.y * p.z - p.y * q.z) % c.prime
    let v := (q.x * p.z - p.x * q.z) % c.prime
    if v = 0 then (if u = 0 then c.double p else .zero)
    else
      let z := p.z * q.z % c.prime
      let v2 := v * v % c.prime
      let v3 := v2 * v % c.prime
      let r := v2 * (p.x * q.z) % c.prime
      let a := (u * u % c.prime * z - v3 - 2 * r) % c.prime
      c.point (v * a) (u * (r - a) - v3 * (p.y * q.z)) (v3 * z)

/-- `n` times a point. -/
def times (p : Point) (n : Nat) : Point :=
  if n = 0 then .zero
  else
    let half := times (c.double p) (n / 2)
    if n % 2 = 0 then half else c.add p half
termination_by n
decreasing_by omega

/-- The bytes of a point that is not neutral: a mark and both coordinates. -/
def bytes (p : Point) : List UInt8 :=
  let inverse := Edwards.inverseMod p.z.toNat c.prime
  let coordinate (v : Int) := Bytes.Sha256.bigEndian c.size (v.toNat * inverse % c.prime)
  4 :: (coordinate p.x ++ coordinate p.y)

/-- The public key of a secret number. -/
def publicKey (secret : Nat) : List UInt8 := c.bytes (c.times ⟨c.baseX, c.baseY, 1⟩ secret)

/-! ## The curves -/

/-- The curve over 256 bits. -/
def p256 : Curve where
  name := "nistp256"
  size := 32
  prime :=
    0xffffffff00000001000000000000000000000000ffffffffffffffffffffffff
  baseX :=
    0x6b17d1f2e12c4247f8bce6e563a440f277037d812deb33a0f4a13945d898c296
  baseY :=
    0x4fe342e2fe1a7f9b8ee7eb4a7c0f9e162bce33576b315ececbb6406837bf51f5
  order :=
    0xffffffff00000000ffffffffffffffffbce6faada7179e84f3b9cac2fc632551
  identifier := [0x2a, 0x86, 0x48, 0xce, 0x3d, 0x03, 0x01, 0x07]

/-- The curve over 384 bits. -/
def p384 : Curve where
  name := "nistp384"
  size := 48
  prime :=
    0xfffffffffffffffffffffffffffffffffffffffffffffffffffffffffffffffeffffffff0000000000000000ffffffff
  baseX :=
    0xaa87ca22be8b05378eb1c71ef320ad746e1d3b628ba79b9859f741e082542a385502f25dbf55296c3a545e3872760ab7
  baseY :=
    0x3617de4a96262c6f5d9e98bf9292dc29f8f41dbd289a147ce9da3113b5f0b8c00a60b1ce1d7e819d7a431d7c90ea0e5f
  order :=
    0xffffffffffffffffffffffffffffffffffffffffffffffffc7634d81f4372ddf581a0db248b0a77aecec196accc52973
  identifier := [0x2b, 0x81, 0x04, 0x00, 0x22]

/-- The curve over 521 bits. -/
def p521 : Curve where
  name := "nistp521"
  size := 66
  prime :=
    0x1ffffffffffffffffffffffffffffffffffffffffffffffffffffffffffffffffffffffffffffffffffffffffffffffffffffffffffffffffffffffffffffffffff
  baseX :=
    0xc6858e06b70404e9cd9e3ecb662395b4429c648139053fb521f828af606b4d3dbaa14b5e77efe75928fe1dc127a2ffa8de3348b3c1856a429bf97e7e31c2e5bd66
  baseY :=
    0x11839296a789a3bc0045c8a5fb42c7d1bd998f54449579b446817afbd17273e662c97ee72995ef42640c550b9013fad0761353c7086a272c24088be94769fd16650
  order :=
    0x1fffffffffffffffffffffffffffffffffffffffffffffffffffffffffffffffffa51868783bf2f966b7fcc0148f709a5d03bb5c9b8899c47aebb6fb71e91386409
  identifier := [0x2b, 0x81, 0x04, 0x00, 0x23]

/-- All curves. -/
def all : List Curve := [p256, p384, p521]

end Curve

end GitGateway.Crypto
