import GitGateway.Text.Quoted
import GitGateway.Text.Utf8

/-!
# Packet lines

A packet line is its own length in four hexadecimal digits, which count themselves, followed by the
payload.  `0000` ends a message.  A payload that is too long is cut, so the length always fits.
-/

namespace GitGateway.Git.PktLine

/-- The longest payload. -/
def maxPayload : Nat := 65516

/-- The packet that ends a message. -/
def flush : List UInt8 := [48, 48, 48, 48]

/-- The digit for a value below sixteen. -/
def hexDigit (v : Nat) : UInt8 := UInt8.ofNat (if v < 10 then 48 + v else 87 + v)

/-- Four hexadecimal digits of a number below 65536. -/
def hex4 (n : Nat) : List UInt8 :=
  [hexDigit (n / 4096 % 16), hexDigit (n / 256 % 16), hexDigit (n / 16 % 16), hexDigit (n % 16)]

/-- The packet line of a payload. -/
def encode (data : List UInt8) : List UInt8 :=
  let payload := data.take maxPayload
  hex4 (payload.length + 4) ++ payload

/-- The message that reports a failure to a git client. -/
def encodeError (message : String) : List UInt8 :=
  encode (Text.Utf8.encode ("ERR " ++ message ++ "\n")) ++ flush

end GitGateway.Git.PktLine
