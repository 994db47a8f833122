import GitGateway.Access.Key
import GitGateway.Bytes.Wire
import GitGateway.Crypto.Curve

/-!
# Host keys

The key by which the gateway proves who it is.  It is an Ed25519 key, an ECDSA key on one of the
standard curves, or an RSA key, which also says how it signs.
-/

namespace GitGateway.Ssh

/-- How an RSA key hashes what it signs. -/
inductive RsaHash where
  | sha256
  | sha512
deriving DecidableEq, Repr

/-- The name of signatures made so. -/
def RsaHash.name : RsaHash → String
  | .sha256 => "rsa-sha2-256"
  | .sha512 => "rsa-sha2-512"

/-- A secret key. -/
inductive HostKey where
  /-- An Ed25519 key by its secret bytes. -/
  | ed25519 (secret : List UInt8)
  | ecdsa (curve : Crypto.Curve) (secret : Nat)
  | rsa (hash : RsaHash) (modulus exponent : Nat)
deriving DecidableEq, Repr

namespace HostKey

/-- The name of the key's kind in its public bytes. -/
def kind : HostKey → String
  | .ed25519 _ => "ssh-ed25519"
  | .ecdsa curve _ => "ecdsa-sha2-" ++ curve.name
  | .rsa _ _ _ => "ssh-rsa"

/-- The name of the signatures that the key makes. -/
def algorithm : HostKey → String
  | .rsa hash _ _ => hash.name
  | k => k.kind

/-- A text with its length. -/
def encodeText (s : String) : List UInt8 := Bytes.Wire.encode (Text.Utf8.encode s)

/-- The bytes of the public key. -/
def publicBytes (k : HostKey) : List UInt8 :=
  encodeText k.kind ++
    match k with
    | .ed25519 secret => Bytes.Wire.encode (Crypto.Edwards.publicKey secret)
    | .ecdsa curve secret => encodeText curve.name ++ Bytes.Wire.encode (curve.publicKey secret)
    | .rsa _ modulus exponent =>
      Bytes.Wire.encodeInteger exponent ++ Bytes.Wire.encodeInteger modulus

/-- The public key. -/
def publicKey (k : HostKey) : ClientKey :=
  ⟨k.algorithm, ClientKey.ofAscii (Bytes.Base64.encode k.publicBytes)⟩

/-! ## What makes a key sound -/

/-- An ECDSA key, if its secret number is in range. -/
def ofScalar (curve : Crypto.Curve) (secret : Nat) : Option HostKey :=
  if 0 < secret && secret < curve.order then some (.ecdsa curve secret) else none

/-- The numbers of an RSA key. -/
structure RsaNumbers where
  modulus : Nat
  exponent : Nat
  secret : Nat
  firstPrime : Nat
  secondPrime : Nat

/-- Whether the numbers fit together. -/
def RsaNumbers.isSound (r : RsaNumbers) : Bool :=
  2 ≤ r.exponent && r.exponent.log2 < 33 && r.modulus.log2 < 4096 &&
    1 < r.firstPrime && 1 < r.secondPrime && r.firstPrime * r.secondPrime == r.modulus &&
    r.secret * r.exponent % (r.firstPrime - 1) == 1 % (r.firstPrime - 1) &&
    r.secret * r.exponent % (r.secondPrime - 1) == 1 % (r.secondPrime - 1)

/-- An RSA key, if its numbers fit together. -/
def ofNumbers (hash : RsaHash) (r : RsaNumbers) : Option HostKey :=
  if r.isSound then some (.rsa hash r.modulus r.exponent) else none

end HostKey

end GitGateway.Ssh
