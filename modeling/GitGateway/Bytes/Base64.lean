/-!
# Base64

The standard alphabet with canonical padding: four symbols stand for three bytes, a last group of
one or two bytes is filled up with `=`, and the bits that the filling leaves unused are zero.
Reading names the first thing that is wrong with a text.
-/

namespace GitGateway.Bytes.Base64

/-- The sixty-four symbols in order of their value. -/
def alphabet : List UInt8 :=
  "ABCDEFGHIJKLMNOPQRSTUVWXYZabcdefghijklmnopqrstuvwxyz0123456789+/".toUTF8.toList

/-- The filling symbol. -/
def pad : UInt8 := 61

/-- The symbol for a value below sixty-four. -/
def symbol (v : Nat) : UInt8 :=
  if v < 26 then UInt8.ofNat (65 + v)
  else if v < 52 then UInt8.ofNat (97 + (v - 26))
  else if v < 62 then UInt8.ofNat (48 + (v - 52))
  else if v == 62 then 43
  else 47

/-- The value of a symbol. -/
def value? (b : UInt8) : Option Nat :=
  if 65 ≤ b && b ≤ 90 then some (b.toNat - 65)
  else if 97 ≤ b && b ≤ 122 then some (b.toNat - 97 + 26)
  else if 48 ≤ b && b ≤ 57 then some (b.toNat - 48 + 52)
  else if b == 43 then some 62
  else if b == 47 then some 63
  else none

/-! ## Writing -/

/-- Symbols of a full group of three bytes. -/
def encodeGroup (a b c : UInt8) : List UInt8 :=
  let n := (a.toNat * 256 + b.toNat) * 256 + c.toNat
  [symbol (n / 262144), symbol (n / 4096 % 64), symbol (n / 64 % 64), symbol (n % 64)]

/-- Symbols of a last group of two bytes, without filling. -/
def encodePair (a b : UInt8) : List UInt8 :=
  let n := (a.toNat * 256 + b.toNat) * 4
  [symbol (n / 4096), symbol (n / 64 % 64), symbol (n % 64)]

/-- Symbols of a last single byte, without filling. -/
def encodeSingle (a : UInt8) : List UInt8 :=
  let n := a.toNat * 16
  [symbol (n / 64), symbol (n % 64)]

/-- The symbols of a byte sequence, filled up to whole groups of four if `filled`. -/
def encodeWith (filled : Bool) : List UInt8 → List UInt8
  | a :: b :: c :: rest => encodeGroup a b c ++ encodeWith filled rest
  | [a, b] => encodePair a b ++ (if filled then [pad] else [])
  | [a] => encodeSingle a ++ (if filled then [pad, pad] else [])
  | [] => []

/-- The canonical text of a byte sequence. -/
def encode (bs : List UInt8) : List UInt8 := encodeWith true bs

/-- The text of a byte sequence without filling. -/
def encodeBare (bs : List UInt8) : List UInt8 := encodeWith false bs

/-! ## Reading -/

/-- Why a text is not the canonical form of any byte sequence. -/
inductive DecodeError where
  /-- A byte that cannot stand at this offset. -/
  | symbol (byte : UInt8) (offset : Nat)
  /-- The text ends in the middle of a group. -/
  | length (n : Nat)
  /-- The last symbol has bits that stand for nothing. -/
  | lastSymbol (byte : UInt8) (offset : Nat)
  /-- Too little or too much filling. -/
  | padding
deriving DecidableEq, Repr

namespace DecodeError

/-- The wording of an error. -/
def message : DecodeError → String
  | .symbol b i => "Invalid symbol " ++ toString b.toNat ++ ", offset " ++ toString i ++ "."
  | .length n => "Invalid input length: " ++ toString n
  | .lastSymbol b i =>
    "Invalid last symbol " ++ toString b.toNat ++ ", offset " ++ toString i ++ "."
  | .padding => "Invalid padding"

end DecodeError

/-- The values of symbols that stand from `offset` on; names the first byte that is no symbol. -/
def values (offset : Nat) : List UInt8 → Except DecodeError (List Nat)
  | [] => .ok []
  | b :: bs =>
    match value? b with
    | none => .error (.symbol b offset)
    | some v => (values (offset + 1) bs).map (v :: ·)

/-- Three bytes from the values of four symbols. -/
def joinGroup (v w x y : Nat) : List UInt8 :=
  let n := ((v * 64 + w) * 64 + x) * 64 + y
  [UInt8.ofNat (n / 65536), UInt8.ofNat (n / 256 % 256), UInt8.ofNat (n % 256)]

/-- The bytes of a full group, none of whose symbols may be filling. -/
def decodeGroup (offset : Nat) (a b c d : UInt8) : Except DecodeError (List UInt8) :=
  match values offset [a, b, c, d] with
  | .ok [v, w, x, y] => .ok (joinGroup v w x y)
  | .ok _ => .ok []
  | .error e => .error e

/-- Splits a last group into symbols and the number of fillers behind them.  Fillers may start at
the third place, and nothing may follow them. -/
def splitLast (offset : Nat) (group : List UInt8) : Except DecodeError (List UInt8 × Nat) :=
  let symbols := group.takeWhile (· != pad)
  let fill := group.dropWhile (· != pad)
  match values offset symbols with
  | .error e => .error e
  | .ok _ =>
    if fill.isEmpty then .ok (symbols, 0)
    else if symbols.length < 2 || fill.any (· != pad) then
      .error (.symbol pad (offset + symbols.length))
    else .ok (symbols, fill.length)

/-- The bytes of the last group, which has at most four symbols. -/
def decodeLast (offset : Nat) (group : List UInt8) : Except DecodeError (List UInt8) :=
  match splitLast offset group with
  | .error e => .error e
  | .ok (symbols, fill) =>
    if symbols.length < 2 then .error (.length (offset + symbols.length))
    else if symbols.length + fill != 4 then .error .padding
    else
      match values offset symbols with
      | .ok [v, w, x, y] => .ok (joinGroup v w x y)
      | .ok [v, w, x] =>
        if x % 4 != 0 then .error (.lastSymbol (symbol x) (offset + 2))
        else .ok ((joinGroup v w x 0).take 2)
      | .ok [v, w] =>
        if w % 16 != 0 then .error (.lastSymbol (symbol w) (offset + 1))
        else .ok ((joinGroup v w 0 0).take 1)
      | .ok _ => .ok []
      | .error e => .error e

/-- Reads group after group; `done` holds the bytes read so far, last first. -/
def decodeFrom (offset : Nat) (done : List UInt8) : List UInt8 → Except DecodeError (List UInt8)
  | a :: b :: c :: d :: e :: rest =>
    match decodeGroup offset a b c d with
    | .error err => .error err
    | .ok bytes => decodeFrom (offset + 4) (bytes.reverse ++ done) (e :: rest)
  | group =>
    match decodeLast offset group with
    | .error err => .error err
    | .ok bytes => .ok (done.reverse ++ bytes)

/-- A byte that stands alone behind whole groups and is neither symbol nor filling is the fault
that is named first. -/
def straySymbol? (bs : List UInt8) : Option DecodeError :=
  match bs.getLast? with
  | some b =>
    if bs.length % 4 == 1 && b != pad && (value? b).isNone then
      some (.symbol b (bs.length - 1))
    else none
  | none => none

/-- The byte sequence whose canonical form is `bs`. -/
def decode (bs : List UInt8) : Except DecodeError (List UInt8) :=
  match straySymbol? bs with
  | some e => .error e
  | none => if bs.isEmpty then .ok [] else decodeFrom 0 [] bs

end GitGateway.Bytes.Base64
