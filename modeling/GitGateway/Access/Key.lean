import GitGateway.Bytes.Base64
import GitGateway.Bytes.Sha256
import GitGateway.Text.Blank
import GitGateway.Text.Quoted
import GitGateway.Text.Utf8

/-!
# Client keys

A public key is its algorithm and its data, written as canonical Base64.  It comes from a line that
an operator wrote, `algorithm data comment`, or from the key that a client proved to hold.  A
comment is no part of a key.
-/

namespace GitGateway

/-- A public key. -/
structure ClientKey where
  algorithm : String
  /-- The Base64 text of the key's data. -/
  data : String
deriving DecidableEq, Repr

namespace ClientKey

/-- Why a line holds no key. -/
inductive LineError where
  /-- The line has no words. -/
  | empty
  /-- The line has one word only. -/
  | noData (line : String)
  | notBase64 (line : String) (cause : Bytes.Base64.DecodeError)
deriving DecidableEq, Repr

namespace LineError

/-- The explanations of an error, outermost first. -/
def causes : LineError → List String
  | .empty => ["empty public key line"]
  | .noData line => ["public key line has no key data: " ++ Text.quoted line]
  | .notBase64 line cause =>
    ["public key data is not valid base64: " ++ Text.quoted line, cause.message]

end LineError

/-- The key that a line holds. -/
def ofLine (line : String) : Except LineError ClientKey :=
  match (Text.words line.toList).map String.ofList with
  | [] => .error .empty
  | [_] => .error (.noData line)
  | algorithm :: data :: _ =>
    match Bytes.Base64.decode (Text.Utf8.encode data) with
    | .ok _ => .ok ⟨algorithm, data⟩
    | .error cause => .error (.notBase64 line cause)

/-- The bytes of the key; none if the data is no canonical Base64. -/
def blob (k : ClientKey) : List UInt8 :=
  match Bytes.Base64.decode (Text.Utf8.encode k.data) with
  | .ok bytes => bytes
  | .error _ => []

/-- Text from bytes below 128. -/
def ofAscii (bs : List UInt8) : String := String.ofList (bs.map fun b => Char.ofNat b.toNat)

/-- The short name of a key: the hash of its bytes. -/
def fingerprint (k : ClientKey) : String :=
  "SHA256:" ++ ofAscii (Bytes.Base64.encodeBare (Bytes.Sha256.digest k.blob))

/-- The line that stands for a key. -/
def line (k : ClientKey) : String := k.algorithm ++ " " ++ k.data

/-! ## Keys from the transport -/

/-- The algorithm that a key's bytes begin with: a length in four bytes and the name. -/
def blobAlgorithm (blob : List UInt8) : String :=
  match blob with
  | a :: b :: c :: d :: rest =>
    ofAscii (rest.take (((a.toNat * 256 + b.toNat) * 256 + c.toNat) * 256 + d.toNat))
  | _ => ""

/-- The transport names an RSA key by the signature it makes; other keys keep their name. -/
def transportAlgorithm (name : String) : String :=
  if name == "ssh-rsa" then "rsa-sha2-256" else name

/-- The key that a client proved to hold. -/
def ofBlob (blob : List UInt8) : ClientKey :=
  ⟨transportAlgorithm (blobAlgorithm blob), ofAscii (Bytes.Base64.encode blob)⟩

end ClientKey

end GitGateway
