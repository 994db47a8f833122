/-!
# UTF-8

Bytes are read as a sequence of pieces: characters, and runs of bytes that start no character.  A
broken run is as long as it could still have become a character.  Strict reading refuses a broken
run; lossy reading puts the replacement character in its place.
-/

namespace GitGateway.Text.Utf8

/-- What stands at some place in a byte sequence. -/
inductive Piece where
  | char (c : Char)
  /-- A maximal run that could have started a character but does not finish it. -/
  | broken
deriving DecidableEq, Repr

/-- The bytes of `s`. -/
def encode (s : String) : List UInt8 := s.toUTF8.toList

/-- Whether `b` continues a character. -/
def isContinuation (b : UInt8) : Bool := 0x80 ≤ b && b ≤ 0xbf

/-- Whether `b` may follow the lead byte `lead` of a character of two or more bytes. -/
def mayFollow (lead b : UInt8) : Bool :=
  if lead == 0xe0 then 0xa0 ≤ b && b ≤ 0xbf
  else if lead == 0xed then 0x80 ≤ b && b ≤ 0x9f
  else if lead == 0xf0 then 0x90 ≤ b && b ≤ 0xbf
  else if lead == 0xf4 then 0x80 ≤ b && b ≤ 0x8f
  else isContinuation b

/-- How many bytes a character with this first byte has; zero if none starts with it. -/
def width (lead : UInt8) : Nat :=
  if lead < 0x80 then 1
  else if 0xc2 ≤ lead && lead ≤ 0xdf then 2
  else if 0xe0 ≤ lead && lead ≤ 0xef then 3
  else if 0xf0 ≤ lead && lead ≤ 0xf4 then 4
  else 0

/-- The six payload bits of a continuation byte. -/
def payload (b : UInt8) : Nat := b.toNat % 64

/-- The piece that starts with `lead`, and how many of the following bytes belong to it. -/
def piece (lead : UInt8) (rest : List UInt8) : Piece × Nat :=
  match width lead with
  | 1 => (.char (Char.ofNat lead.toNat), 0)
  | 2 =>
    match rest with
    | b :: _ =>
      if mayFollow lead b then (.char (Char.ofNat (lead.toNat % 32 * 64 + payload b)), 1)
      else (.broken, 0)
    | [] => (.broken, 0)
  | 3 =>
    match rest with
    | b :: c :: _ =>
      if mayFollow lead b then
        if isContinuation c then
          (.char (Char.ofNat ((lead.toNat % 16 * 64 + payload b) * 64 + payload c)), 2)
        else (.broken, 1)
      else (.broken, 0)
    | [b] => (.broken, if mayFollow lead b then 1 else 0)
    | [] => (.broken, 0)
  | 4 =>
    match rest with
    | b :: c :: d :: _ =>
      if mayFollow lead b then
        if isContinuation c then
          if isContinuation d then
            (.char (Char.ofNat
              (((lead.toNat % 8 * 64 + payload b) * 64 + payload c) * 64 + payload d)), 3)
          else (.broken, 2)
        else (.broken, 1)
      else (.broken, 0)
    | [b, c] =>
      (.broken, if mayFollow lead b then (if isContinuation c then 2 else 1) else 0)
    | [b] => (.broken, if mayFollow lead b then 1 else 0)
    | [] => (.broken, 0)
  | _ => (.broken, 0)

/-- The pieces of a byte sequence after those already found, which come last first. -/
def piecesFrom (done : List Piece) : List UInt8 → List Piece
  | [] => done.reverse
  | b :: rest =>
    let p := piece b rest
    piecesFrom (p.1 :: done) (rest.drop p.2)
termination_by bs => bs.length
decreasing_by simp only [List.length_cons, List.length_drop]; omega

/-- The pieces of a byte sequence. -/
def pieces (bs : List UInt8) : List Piece := piecesFrom [] bs

/-- The character a piece is read as when nothing may be refused. -/
def Piece.lossy : Piece → Char
  | .char c => c
  | .broken => '\uFFFD'

/-- The character a piece is, if it is one. -/
def Piece.char? : Piece → Option Char
  | .char c => some c
  | .broken => none

/-- Reads bytes as text, putting U+FFFD in place of each broken run. -/
def decodeLossy (bs : List UInt8) : String := String.ofList ((pieces bs).map Piece.lossy)

/-- Reads bytes as text; fails if any run is broken. -/
def decode? (bs : List UInt8) : Option String :=
  let ps := pieces bs
  if ps.contains .broken then none else some (String.ofList (ps.map Piece.lossy))

end GitGateway.Text.Utf8
